import CallWatch.Count
import CallWatch.Text.Numeral

namespace CallWatch.Fault

-- The state that a remote endpoint is made to show. A delay is a signed number of
-- milliseconds: a positive one slows the connection down, a negative one waits for
-- its magnitude and then refuses.
inductive Status where
  | opened
  | closed
  | delay (millis : Int32)
deriving DecidableEq

namespace Status

instance : Inhabited Status :=
  ⟨.opened⟩

-- Zero milliseconds are no delay.
def ofMillis (millis : Int32) : Status :=
  if millis = 0 then .opened else .delay millis

def isOpen : Status → Bool
  | .opened => true
  | .closed => false
  | .delay millis => millis = 0

-- How long a connection is held back, in milliseconds.
def wait? : Status → Option Nat
  | .delay millis => if millis = 0 then none else some millis.toInt.natAbs
  | _ => none

def refuses : Status → Bool
  | .opened => false
  | .closed => true
  | .delay millis => millis.toInt < 0

def write : Status → List Char
  | .opened => "OPEN".toList
  | .closed => "CLOSED".toList
  | .delay millis => Text.writeInt millis.toInt

def display (s : Status) : String :=
  String.ofList s.write

def read? (text : List Char) : Option Status :=
  if text = "OPEN".toList then some .opened
  else if text = "CLOSED".toList then some .closed
  else (Text.readInt? (-2147483648) 2147483647 text).map fun i => .delay (Int32.ofInt i)

end Status

end CallWatch.Fault

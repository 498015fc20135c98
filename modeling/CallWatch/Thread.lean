import CallWatch.Text.Blank
import CallWatch.Text.Numeral

namespace CallWatch

-- A thread is known by its number. Its name and its group are carried along for
-- reports, and two records of one thread may differ in them.
structure Thread where
  id : Nat
  name : Option String
  group : Option String
deriving DecidableEq

namespace Thread

-- Characters that set a worker number off from the name of its group.
def isSeparator (c : Char) : Bool :=
  c == '-' || c == '_' || c == '#' || c == ' '

-- The group of a worker is its name less the worker number and what sets the
-- number off. Nothing left means no group.
def groupOf (name : String) : Option String :=
  match Text.dropEndWhile isSeparator (Text.dropEndWhile Char.isDigit name.toList) with
  | [] => none
  | group => some (String.ofList group)

def named (id : Nat) (name : Option String) : Thread :=
  ⟨id, name, name.bind groupOf⟩

def idText (id : Nat) : String :=
  "ThreadId(" ++ Text.showNat (id + 1) ++ ")"

def display (t : Thread) : String :=
  match t.name with
  | some name => name ++ " (" ++ idText t.id ++ ")"
  | none => idText t.id

end Thread

end CallWatch

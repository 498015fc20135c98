namespace CallWatch.Json

-- Why a text cannot be read: it ends too early, it is no JSON, or it is JSON of
-- another shape than is asked for. Only some of the last kind say more.
inductive Defect where
  | ended
  | malformed
  | unsuitable (message : Option String)
deriving DecidableEq

-- A reader takes what it reads off the front of a text. The first defect from the
-- left ends the reading.
abbrev Reader :=
  StateT (List Char) (Except Defect)

namespace Reader

def fail {α : Type} (d : Defect) : Reader α :=
  fun _ => .error d

def unsuitable {α : Type} : Reader α :=
  fail (.unsuitable none)

def remaining : Reader Nat :=
  fun cs => .ok (cs.length, cs)

def peek? : Reader (Option Char) :=
  fun cs => .ok (cs.head?, cs)

def advance : Reader Unit :=
  fun cs => .ok ((), cs.tail)

def isBlank (c : Char) : Bool :=
  c == ' ' || c == '\n' || c == '\t' || c == '\r'

def blanks : Reader Unit :=
  fun cs => .ok ((), cs.dropWhile isBlank)

-- The next character that is not blank, left where it is.
def token? : Reader (Option Char) := do
  blanks
  peek?

def takeDigits : Reader (List Char) :=
  fun cs => .ok (cs.takeWhile Char.isDigit, cs.dropWhile Char.isDigit)

-- The defect of finding something else, or nothing, where a character is needed.
def missing {α : Type} : Reader α := do
  match ← peek? with
  | none => fail .ended
  | some _ => fail .malformed

-- Takes the given characters and no others.
def literal : List Char → Reader Unit
  | [] => pure ()
  | c :: rest => do
      if (← peek?) = some c then
        advance
        literal rest
      else missing

def colon : Reader Unit := do
  if (← token?) = some ':' then advance else missing

-- Whether another member follows in a container that `close` ends. A comma in front
-- of it is taken, and the closing sign is left.
def another (close : Char) (first : Bool) : Reader Bool := do
  match ← token? with
  | none => fail .ended
  | some c =>
      if c = close then pure false
      else if first then pure true
      else if c = ',' then do
        advance
        match ← token? with
        | none => fail .ended
        | some c => if c = close then fail .malformed else pure true
      else fail .malformed

-- Reads a whole text: nothing but blanks may follow the value.
def readAll {α : Type} (r : Reader α) (text : String) : Except Defect α :=
  match r text.toList with
  | .error d => .error d
  | .ok (value, rest) =>
      if (rest.dropWhile isBlank).isEmpty then .ok value else .error .malformed

end Reader

end CallWatch.Json

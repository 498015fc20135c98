import CallWatch.Json.Number
import CallWatch.Json.Quoted

namespace CallWatch.Json

-- Values of one expected kind, and values that are passed over.

inductive Container where
  | array
  | object
deriving DecidableEq

def Container.close : Container → Char
  | array => ']'
  | object => '}'

-- How closely a value that is passed over is looked at, and whether one more
-- container may be opened inside the open ones.
structure Care where
  number : Reader Unit
  text : Reader Unit
  room : List Container → Bool

namespace Care

def little : Care :=
  ⟨Number.skip, Quoted.skip, fun _ => true⟩

def maxDepth : Nat :=
  128

-- The care taken of a value that is kept: at `depth` open containers it may not
-- reach the greatest depth.
def full (depth : Nat) : Care :=
  ⟨do let _ ← Number.read, do let _ ← Quoted.read,
    fun outer => depth + outer.length + 1 < maxDepth⟩

end Care

namespace Reader

def isNumberStart (c : Char) : Bool :=
  c == '-' || c.isDigit

-- A value that is no container, from its first character on.
def skipScalar (care : Care) (c : Char) : Reader Unit :=
  if c = 'n' then literal "null".toList
  else if c = 't' then literal "true".toList
  else if c = 'f' then literal "false".toList
  else if c = '"' then do
    advance
    care.text
  else if isNumberStart c then care.number
  else fail .malformed

def skipName (care : Care) : Reader Unit := do
  if (← peek?) = some '"' then
    advance
    care.text
    colon
  else fail .malformed

def openContainer (care : Care) (outer : List Container) : Reader Unit :=
  if care.room outer then advance else fail .malformed

-- Passes over a value inside the open containers. In front of a value the last
-- argument is none; else it tells whether a container was opened just now.
def skipFrom (care : Care) : Nat → List Container → Option Bool → Reader Unit
  | 0, _, _ => fail .ended
  | n + 1, outer, none => do
      match ← token? with
      | none => fail .ended
      | some '[' => do
          openContainer care outer
          skipFrom care n (.array :: outer) (some true)
      | some '{' => do
          openContainer care outer
          skipFrom care n (.object :: outer) (some true)
      | some c => do
          skipScalar care c
          skipFrom care n outer (some false)
  | _ + 1, [], some _ => pure ()
  | n + 1, c :: outer, some first => do
      if ← another c.close first then
        if c = .object then skipName care
        skipFrom care n (c :: outer) none
      else
        advance
        skipFrom care n outer (some false)

-- A value takes at most three steps for each of its characters.
def skipValue (care : Care) : Reader Unit := do
  skipFrom care (3 * (← remaining) + 3) [] none

-- What stands where a value of another kind was expected: unsuitable if it is a value
-- at all. Only scalars are read to their end to find out.
def refuse {α : Type} : Reader α := do
  match ← token? with
  | none => fail .ended
  | some '[' | some '{' => unsuitable
  | some c => do
      skipScalar (.full 0) c
      unsuitable

def text : Reader (List Char) := do
  if (← token?) = some '"' then
    advance
    Quoted.read
  else refuse

def string : Reader String := do
  pure (String.ofList (← text))

def bool : Reader Bool := do
  match ← token? with
  | some 't' => do
      literal "true".toList
      pure true
  | some 'f' => do
      literal "false".toList
      pure false
  | _ => refuse

def null : Reader Unit := do
  if (← token?) = some 'n' then literal "null".toList else refuse

def integer (lower upper : Int) : Reader Int := do
  match ← token? with
  | some c =>
      if isNumberStart c then
        match ← Number.read with
        | .whole i => if lower ≤ i ∧ i ≤ upper then pure i else unsuitable
        | .double => unsuitable
      else refuse
  | none => refuse

def natural (limit : Nat) : Reader Nat := do
  pure (← integer 0 limit).toNat

def option {α : Type} (r : Reader α) : Reader (Option α) := do
  if (← token?) = some 'n' then
    literal "null".toList
    pure none
  else
    pure (some (← r))

def items {α : Type} (item : Reader α) : Nat → Bool → Reader (List α)
  | 0, _ => fail .ended
  | n + 1, first => do
      if ← another ']' first then
        let x ← item
        let xs ← items item n false
        pure (x :: xs)
      else
        advance
        pure []

def list {α : Type} (item : Reader α) : Reader (List α) := do
  if (← token?) = some '[' then
    advance
    items item ((← remaining) + 1) true
  else refuse

def named {α : Type} (values : List (String × α)) (name : List Char) : Reader α :=
  match values.find? fun v => v.1.toList = name with
  | some v => pure v.2
  | none => unsuitable

-- One of some names, read from its opening quote on.
def quotedName {α : Type} (values : List (String × α)) : Reader α := do
  if (← token?) = some '"' then
    advance
    named values (← Quoted.read)
  else missing

-- One of some names: as a string, or as the only member of an object with nothing
-- to say. Anything else is no JSON for a name, also in front of the colon.
def name {α : Type} (values : List (String × α)) : Reader α := do
  if (← token?) = some '{' then
    advance
    let value ← quotedName values
    colon
    null
    if (← token?) = some '}' then
      advance
      pure value
    else missing
  else quotedName values

end Reader

end CallWatch.Json

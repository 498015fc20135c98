import CallWatch.Json.Value

namespace CallWatch.Json

-- A record is read into a draft, member by member. A field knows whether the draft
-- has it already, and how to read its value into the draft.
structure Field (δ : Type) where
  name : String
  isSet : δ → Bool
  read : δ → Reader δ

-- A field that keeps what it reads in a place of its own.
def Field.of {δ β : Type} (name : String) (get : δ → Option β) (set : δ → β → δ)
    (r : Reader β) : Field δ :=
  ⟨name, fun draft => (get draft).isSome, fun draft => do pure (set draft (← r))⟩

-- The written form of a record: an object with these fields in any order, or an
-- array with them in this order, cut off where the rest may be missing. Unknown
-- members are passed over unless the form is closed. A draft that lacks a field it
-- needs makes no record.
structure Form (δ α : Type) where
  blank : δ
  fields : List (Field δ)
  isClosed : Bool
  finish : δ → Option α

namespace Form

variable {δ α : Type}

def done (form : Form δ α) (draft : δ) : Reader α :=
  match form.finish draft with
  | some value => pure value
  | none => Reader.unsuitable

def elements : List (Field δ) → Bool → δ → Reader δ
  | [], _, draft => pure draft
  | field :: rest, first, draft => do
      if ← Reader.another ']' first then
        let draft ← field.read draft
        elements rest false draft
      else pure draft

def member (form : Form δ α) (draft : δ) (name : List Char) : Reader δ :=
  match form.fields.find? fun f => f.name.toList = name with
  | some field =>
      if field.isSet draft then Reader.unsuitable
      else do
        Reader.colon
        field.read draft
  | none =>
      if form.isClosed then Reader.unsuitable
      else do
        Reader.colon
        Reader.skipValue .little
        pure draft

def members (form : Form δ α) : Nat → Bool → δ → Reader δ
  | 0, _, _ => Reader.fail .ended
  | n + 1, first, draft => do
      if ← Reader.another '}' first then
        if (← Reader.peek?) = some '"' then
          Reader.advance
          let name ← Quoted.read
          let draft ← form.member draft name
          members form n false draft
        else Reader.fail .malformed
      else pure draft

-- A missing field is found before the closing sign is looked at.
def read (form : Form δ α) : Reader α := do
  match ← Reader.token? with
  | some '[' => do
      Reader.advance
      let value ← form.done (← elements form.fields true form.blank)
      if (← Reader.token?) = some ']' then
        Reader.advance
        pure value
      else Reader.missing
  | some '{' => do
      Reader.advance
      let value ← form.done (← form.members ((← Reader.remaining) + 1) true form.blank)
      Reader.advance
      pure value
  | _ => Reader.refuse

end Form

end CallWatch.Json

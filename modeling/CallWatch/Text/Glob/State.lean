namespace CallWatch.Text.Glob

-- A glob and a text are compared byte by byte. A byte is kept as the character of
-- its number, so that the glob's own signs can be written as characters.
abbrev Bytes :=
  Array Char

def bytesOf (s : String) : Bytes :=
  (s.toUTF8.toList.map fun b => Char.ofNat b.toNat).toArray

-- A place to come back to: an index into the glob and one into the text. A text
-- index of zero says that there is no such place.
structure Place where
  glob : Nat
  text : Nat

def Place.unset : Place :=
  ⟨0, 0⟩

def Place.isSet (p : Place) (text : Bytes) : Bool :=
  0 < p.text && p.text ≤ text.size

-- What a brace group restores: the position of its opening brace and the places
-- that were set there.
structure Group where
  glob : Nat
  text : Nat
  wild : Place
  deep : Place

-- How far a comparison has come. `wild` is the last star, `deep` the last double
-- star that may cross separators, `groups` the open brace groups with the innermost
-- first, `longest` the end of the longest alternative that matched so far.
structure State where
  glob : Nat
  text : Nat
  wild : Place
  deep : Place
  groups : List Group
  longest : Nat

def State.start (glob : Nat) : State :=
  ⟨glob, 0, .unset, .unset, [], 0⟩

def maxGroups : Nat :=
  10

-- Leaves the innermost group behind the longest alternative that matched.
def State.leave (s : State) : State :=
  match s.groups with
  | [] => s
  | group :: outer =>
      { s with
        text := s.longest
        wild := group.wild
        deep := group.deep
        groups := outer
        longest := if outer.isEmpty then 0 else s.longest }

def State.enter (s : State) : State :=
  { s with
    glob := s.glob + 1
    wild := .unset
    deep := .unset
    groups := ⟨s.glob, s.text, s.wild, s.deep⟩ :: s.groups }

-- Goes back to the last star, which then takes one byte more.
def State.retry? (s : State) (text : Bytes) : Option State :=
  if s.wild.isSet text then some { s with glob := s.wild.glob, text := s.wild.text } else none

end CallWatch.Text.Glob

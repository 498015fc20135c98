import CallWatch.Key
import CallWatch.Tally
import Std.Data.HashMap

namespace CallWatch

-- Tallies by key, in the order in which the keys first came. The index finds the
-- place of a key without a search.
structure Summary where
  entries : Array (Key × Tally)
  index : Std.HashMap Key Nat

namespace Summary

def empty : Summary :=
  ⟨#[], ∅⟩

instance : Inhabited Summary :=
  ⟨empty⟩

-- Adds to the tally of a key. A key seen before stays as it first came.
def merge (s : Summary) (key : Key) (amount : Tally) : Summary :=
  match s.index[key]? with
  | some i => { s with entries := s.entries.modify i fun (k, t) => (k, t + amount) }
  | none => ⟨s.entries.push (key, amount), s.index.insert key s.entries.size⟩

def get? (s : Summary) (key : Key) : Option Tally :=
  (s.index[key]?.bind (s.entries[·]?)).map (·.2)

def toList (s : Summary) : List (Key × Tally) :=
  s.entries.toList

def keys (s : Summary) : List Key :=
  s.toList.map (·.1)

def size (s : Summary) : Nat :=
  s.entries.size

def isEmpty (s : Summary) : Bool :=
  s.entries.isEmpty

def total (s : Summary) : Tally :=
  Tally.sum (s.toList.map (·.2))

def mergeAll (s : Summary) (entries : List (Key × Tally)) : Summary :=
  entries.foldl (fun s (key, amount) => s.merge key amount) s

def ofList (entries : List (Key × Tally)) : Summary :=
  empty.mergeAll entries

-- Equal entries in equal order.
instance : BEq Summary :=
  ⟨fun a b => a.toList == b.toList⟩

end Summary

end CallWatch

import CallWatch.Summary

namespace CallWatch

-- One line of a ledger. The number tells when its key was first recorded.
structure Ledger.Entry where
  key : Key
  number : Nat
  amount : Tally

-- The ledger of all calls, spread over shards by the identity of their keys.
-- Numbers go on through a clearing, so that a later key always has a greater one.
structure Ledger where
  placement : Key.Identity → Nat
  shards : List (List Ledger.Entry)
  next : Nat

namespace Ledger

def defaultShards : Nat :=
  16

-- A ledger has at least one shard.
def withPlacement (placement : Key.Identity → Nat) (shards : Nat) : Ledger :=
  ⟨placement, List.replicate (max shards 1) [], 0⟩

def withShards (shards : Nat) : Ledger :=
  withPlacement (fun i => (hash i).toNat) shards

def empty : Ledger :=
  withShards defaultShards

def shardOf (l : Ledger) (key : Key) : Nat :=
  l.placement key.identity % l.shards.length

def shard (l : Ledger) (key : Key) : List Entry :=
  l.shards.getD (l.shardOf key) []

def find? (l : Ledger) (key : Key) : Option Entry :=
  (l.shard key).find? (·.key == key)

def amountOf? (l : Ledger) (key : Key) : Option Tally :=
  (l.find? key).map (·.amount)

-- Adds to the line of a key, in place.
def addTo (key : Key) (amount : Tally) (entries : List Entry) : List Entry :=
  entries.map fun e => if e.key == key then { e with amount := e.amount + amount } else e

def record (l : Ledger) (key : Key) (amount : Tally) : Ledger :=
  match l.find? key with
  | some _ => { l with shards := l.shards.modify (l.shardOf key) (addTo key amount) }
  | none =>
      { l with
        shards := l.shards.modify (l.shardOf key) (· ++ [⟨key, l.next, amount⟩])
        next := l.next + 1 }

-- Every line, in the order in which the keys were first recorded.
def entries (l : Ledger) : List Entry :=
  l.shards.flatten.mergeSort fun a b => a.number ≤ b.number

-- The lines whose keys are let through, grouped.
def summary (l : Ledger) (keep : Key → Bool) (detail : Detail) : Summary :=
  Summary.ofList
    (((l.entries.filter fun e => keep e.key)).map fun e => (e.key.coarsen detail, e.amount))

def snapshot (l : Ledger) : Summary :=
  l.summary (fun _ => true) .full

def size (l : Ledger) : Nat :=
  l.shards.flatten.length

def isEmpty (l : Ledger) : Bool :=
  l.shards.all List.isEmpty

def clear (l : Ledger) : Ledger :=
  { l with shards := l.shards.map fun _ => [] }

end Ledger

end CallWatch

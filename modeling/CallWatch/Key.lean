import CallWatch.Endpoint
import CallWatch.Origin

namespace CallWatch

-- What a call is filed under.
structure Key where
  endpoint : Endpoint
  origin : Origin
deriving DecidableEq

namespace Key

-- The part of a key that tells it from others: of a thread only its number.
structure Identity where
  endpoint : Endpoint
  thread : Option Nat
  site : Option CallSite
deriving DecidableEq, Hashable

def identity (k : Key) : Identity :=
  ⟨k.endpoint, k.origin.threadId?, k.origin.site⟩

instance : BEq Key :=
  ⟨fun a b => a.identity == b.identity⟩

instance : Hashable Key :=
  ⟨fun k => hash k.identity⟩

theorem beq_def (a b : Key) : (a == b) = (a.identity == b.identity) := rfl

theorem hash_def (k : Key) : hash k = hash k.identity := rfl

@[simp]
theorem beq_iff {a b : Key} : (a == b) = true ↔ a.identity = b.identity := by
  rw [beq_def, beq_iff_eq]

instance : EquivBEq Key where
  rfl := beq_iff.mpr rfl
  symm h := beq_iff.mpr (beq_iff.mp h).symm
  trans h₁ h₂ := beq_iff.mpr ((beq_iff.mp h₁).trans (beq_iff.mp h₂))

instance : LawfulHashable Key where
  hash_eq a b h := by rw [hash_def, hash_def, beq_iff.mp h]

end Key

-- Which parts of a key survive when calls are grouped.
structure Detail where
  byConnection : Bool
  bySite : Bool
  byThread : Bool
deriving DecidableEq

namespace Detail

def full : Detail :=
  ⟨true, true, true⟩

def withoutSite : Detail :=
  { full with bySite := false }

def endpointOnly : Detail :=
  ⟨false, false, false⟩

def isFull (d : Detail) : Bool :=
  d.byConnection && d.bySite && d.byThread

end Detail

def Key.coarsen (k : Key) (d : Detail) : Key where
  endpoint := if d.byConnection then k.endpoint else k.endpoint.anyConnection
  origin :=
    { thread := if d.byThread then k.origin.thread else none
      site := if d.bySite then k.origin.site else none }

theorem Key.coarsen_full (k : Key) : k.coarsen .full = k := rfl

end CallWatch

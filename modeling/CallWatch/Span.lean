import CallWatch.Count

namespace CallWatch

-- A stretch of time: up to 2^64 - 1 whole seconds and a part of a second, kept
-- as one number of nanoseconds.
def Span.perSecond : Nat :=
  1000000000

def Span.perMilli : Nat :=
  1000000

structure Span where
  nanos : Nat
  lt_limit : nanos < (Count.limit + 1) * Span.perSecond
deriving DecidableEq

namespace Span

instance : Zero Span :=
  ⟨⟨0, by decide⟩⟩

instance : Inhabited Span :=
  ⟨0⟩

-- Part seconds of a whole second and more carry into the seconds. A span whose
-- seconds then exceed a counter does not exist.
def ofParts? (secs nanos : Nat) : Option Span :=
  let n := secs * perSecond + nanos
  if h : n < (Count.limit + 1) * perSecond then some ⟨n, h⟩ else none

def ofMillis (millis : Count) : Span :=
  ⟨millis.toNat * perMilli, by
    have h := millis.le_limit
    simp only [perMilli, perSecond, Count.limit] at *
    omega⟩

def ofNanos (nanos : Count) : Span :=
  ⟨nanos.toNat, by
    have h := nanos.le_limit
    simp only [perSecond, Count.limit] at *
    omega⟩

def secs (s : Span) : Nat :=
  s.nanos / perSecond

def subsecNanos (s : Span) : Nat :=
  s.nanos % perSecond

def millis (s : Span) : Nat :=
  s.nanos / perMilli

-- The span as a counter of nanoseconds, which holds about 584 years.
def toCount (s : Span) : Count :=
  Count.clamp s.nanos

theorem secs_le (s : Span) : s.secs ≤ Count.limit := by
  have h := s.lt_limit
  simp only [secs, perSecond, Count.limit] at *
  omega

theorem ofParts?_secs (s : Span) : ofParts? s.secs s.subsecNanos = some s := by
  have h : s.secs * perSecond + s.subsecNanos = s.nanos := Nat.div_add_mod' s.nanos perSecond
  simp only [ofParts?, h, s.lt_limit, dite_true]

end Span

end CallWatch

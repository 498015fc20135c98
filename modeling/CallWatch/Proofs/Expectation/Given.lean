import CallWatch.Expectation.Draft
import Mathlib.Data.List.Induction

namespace CallWatch

-- New slots fill what they have and leave the others as they were.
def Slots.over (new old : Slots) : Slots where
  value := new.value.or old.value
  min := new.min.or old.min
  max := new.max.or old.max

namespace Clause

-- The one, the least and the greatest value that a clause gives to a measure.
def slots : Clause → Measure → Slots
  | .exactly n, .calls | .rows n, .rows => ⟨some n, none, none⟩
  | .never, .calls => ⟨some 0, none, none⟩
  | .atLeast n, .calls | .minRows n, .rows => ⟨none, some n, none⟩
  | .atMost n, .calls | .maxRows n, .rows => ⟨none, none, some n⟩
  | .between min max, .calls => ⟨none, some min, some max⟩
  | _, _ => .empty

-- Bytes are given ready-made bounds.
def range? : Clause → Measure → Option Bounds
  | .bytesDown bounds, .bytesDown | .bytesUp bounds, .bytesUp => some bounds
  | _, _ => none

def threads? : Clause → Option ThreadScope
  | .threads scope => some scope
  | _ => none

-- The measure that a clause bounds.
def measure? : Clause → Option Measure
  | .exactly _ | .never | .atLeast _ | .atMost _ | .between _ _ => some .calls
  | .rows _ | .minRows _ | .maxRows _ => some .rows
  | .bytesDown _ => some .bytesDown
  | .bytesUp _ => some .bytesUp
  | .threads _ | .kind _ | .matching _ | .address _ | .endpoint _ => none

-- What a clause can be about. Clauses on different topics do not replace one another.
inductive Topic where
  | endpoint
  | threads
  | exact (measure : Measure)
  | least (measure : Measure)
  | greatest (measure : Measure)
  | range (measure : Measure)
deriving DecidableEq

def isAbout (c : Clause) : Topic → Bool
  | .endpoint =>
      match c with
      | .kind _ | .matching _ | .address _ | .endpoint _ => true
      | _ => false
  | .threads => c.threads?.isSome
  | .exact measure => (c.slots measure).value.isSome
  | .least measure => (c.slots measure).min.isSome
  | .greatest measure => (c.slots measure).max.isSome
  | .range measure => (c.range? measure).isSome

end Clause

-- What a clause makes of a filter, or why it contradicts it. A kind narrows statements that
-- have none yet, a pattern replaces the one there is, and an address makes sockets of
-- everything.
def EndpointFilter.narrow (filter : EndpointFilter) : Clause → Except String EndpointFilter
  | .kind kind =>
      match filter with
      | .statements none text => .ok (.statements (some kind) text)
      | .statements (some current) _ =>
          if current = kind then .ok filter else .error "more than one statement kind"
      | .sockets _ | .every => .error "a statement kind on a non-statement expectation"
  | .matching pattern =>
      match filter with
      | .statements kind _ => .ok (.statements kind pattern)
      | .sockets _ => .ok (.sockets pattern)
      | .every => .error "a pattern on an expectation over every endpoint"
  | .address text =>
      match filter with
      | .statements _ _ => .error "a socket address on a statement expectation"
      | .sockets _ | .every => .ok (.address text)
  | .endpoint other => .ok other
  | _ => .ok filter

-- A filter after clauses, with the reasons of those that contradicted it. These left it as
-- it was.
def EndpointFilter.narrowAll (filter : EndpointFilter) :
    List Clause → EndpointFilter × List String
  | [] => (filter, [])
  | c :: rest =>
      match filter.narrow c with
      | .ok narrowed => narrowed.narrowAll rest
      | .error reason => ((filter.narrowAll rest).1, reason :: (filter.narrowAll rest).2)

namespace Clause

section

variable {α : Type} (f : Clause → Option α)

def lastGiven (clauses : List Clause) : Option α :=
  (clauses.filterMap f).getLast?

theorem lastGiven_concat (clauses : List Clause) (c : Clause) :
    lastGiven f (clauses ++ [c]) = (f c).or (lastGiven f clauses) := by
  rw [lastGiven, List.filterMap_append, List.getLast?_append]
  cases h : f c <;> simp [h, lastGiven]

theorem lastGiven_eq_none_iff {clauses : List Clause} :
    lastGiven f clauses = none ↔ ∀ c ∈ clauses, f c = none := by
  rw [lastGiven, List.getLast?_eq_none_iff, List.filterMap_eq_nil_iff]

-- Only the clauses that give something count.
theorem lastGiven_filter (clauses : List Clause) :
    lastGiven f (clauses.filter fun c => (f c).isSome) = lastGiven f clauses := by
  rw [lastGiven, List.filterMap_filter, lastGiven]
  congr 2
  funext c
  cases f c <;> rfl

theorem lastGiven_congr {clauses others : List Clause} {topic : Topic}
    (htopic : ∀ c, c.isAbout topic = (f c).isSome)
    (h : others.filter (·.isAbout topic) = clauses.filter (·.isAbout topic)) :
    lastGiven f others = lastGiven f clauses := by
  simp only [htopic] at h
  rw [← lastGiven_filter, h, lastGiven_filter]

end

-- The slots of a measure as the clauses last filled them.
def given (clauses : List Clause) (measure : Measure) : Slots where
  value := lastGiven (fun c => (c.slots measure).value) clauses
  min := lastGiven (fun c => (c.slots measure).min) clauses
  max := lastGiven (fun c => (c.slots measure).max) clauses

theorem given_concat (clauses : List Clause) (c : Clause) (measure : Measure) :
    given (clauses ++ [c]) measure = (c.slots measure).over (given clauses measure) := by
  simp only [given, lastGiven_concat, Slots.over]

-- The filter that the clauses on the endpoint leave, and what contradicts it.
def endpointGiven (subject : Subject) (clauses : List Clause) : EndpointFilter × List String :=
  subject.filter.narrowAll (clauses.filter (·.isAbout .endpoint))

theorem given_eq_empty_iff {clauses : List Clause} {measure : Measure} :
    given clauses measure = .empty ↔ ∀ c ∈ clauses, c.slots measure = .empty := by
  simp only [given, Slots.empty, Slots.mk.injEq, lastGiven_eq_none_iff]
  constructor
  · rintro ⟨hvalue, hmin, hmax⟩ c hc
    cases hslots : c.slots measure
    simpa [hslots] using And.intro (hvalue c hc) (And.intro (hmin c hc) (hmax c hc))
  · intro h
    exact ⟨fun c hc => congrArg Slots.value (h c hc), fun c hc => congrArg Slots.min (h c hc),
      fun c hc => congrArg Slots.max (h c hc)⟩

theorem measure?_eq_none_iff {c : Clause} :
    c.measure? = none ↔ c.slots .calls = .empty ∧ c.slots .rows = .empty ∧
      c.range? .bytesDown = none ∧ c.range? .bytesUp = none := by
  cases c <;> simp [measure?, slots, range?, Slots.empty]

-- Clauses leave everything empty exactly if none of them bounds anything.
theorem forall_measure?_eq_none_iff {clauses : List Clause} :
    (∀ c ∈ clauses, c.measure? = none) ↔
      given clauses .calls = .empty ∧ given clauses .rows = .empty ∧
        lastGiven (·.range? .bytesDown) clauses = none ∧
        lastGiven (·.range? .bytesUp) clauses = none := by
  simp only [measure?_eq_none_iff, given_eq_empty_iff, lastGiven_eq_none_iff, forall₂_and]

-- A slot is filled for calls and rows only, a range given for bytes only.
theorem given_bytesDown (clauses : List Clause) : given clauses .bytesDown = .empty :=
  given_eq_empty_iff.mpr fun c _ => by cases c <;> rfl

theorem given_bytesUp (clauses : List Clause) : given clauses .bytesUp = .empty :=
  given_eq_empty_iff.mpr fun c _ => by cases c <;> rfl

theorem lastGiven_range?_calls (clauses : List Clause) :
    lastGiven (·.range? .calls) clauses = none :=
  (lastGiven_eq_none_iff _).mpr fun c _ => by cases c <;> rfl

theorem lastGiven_range?_rows (clauses : List Clause) :
    lastGiven (·.range? .rows) clauses = none :=
  (lastGiven_eq_none_iff _).mpr fun c _ => by cases c <;> rfl

end Clause

end CallWatch

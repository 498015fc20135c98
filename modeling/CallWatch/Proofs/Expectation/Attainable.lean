import CallWatch.Proofs.Expectation.Building
import CallWatch.Proofs.Window.Findings

namespace CallWatch

namespace Bounds

-- Bounds that some count keeps to.
def Possible (b : Bounds) : Prop :=
  b.min ≤ b.max

instance (b : Bounds) : Decidable b.Possible :=
  inferInstanceAs (Decidable (b.min ≤ b.max))

theorem possible_of_contains {b : Bounds} {n : Count} (h : b.contains n) : b.Possible := by
  obtain ⟨hmin, hmax⟩ := contains_iff.mp h
  exact Nat.le_trans hmin hmax

theorem Possible.contains_min {b : Bounds} (h : b.Possible) : b.contains b.min :=
  contains_iff.mpr ⟨Nat.le_refl _, h⟩

-- The one, the least and the greatest value never combine to anything else.
theorem possible_of_combine {value min max : Option Count} {b : Bounds}
    (h : combine value min max = .ok (some b)) : b.Possible := by
  have hbetween (least greatest : Count)
      (hb : (between least greatest).map some = .ok (some b)) : b.Possible := by
    by_cases hlt : greatest < least
    · rw [between, if_pos hlt] at hb
      cases hb
    · rw [between_of_le hlt] at hb
      obtain rfl := Option.some.inj (Except.ok.inj hb)
      exact Nat.not_lt.mp hlt
  cases value with
  | some value =>
      cases min <;> cases max <;> cases h
      exact Nat.le_refl _
  | none =>
      cases min with
      | some min => exact hbetween min (max.getD .greatest) h
      | none =>
          cases max with
          | some max => exact hbetween 0 max h
          | none => cases h

-- Some count keeps to bounds that are possible, or to none at all.
theorem exists_forall_contains {given : Option Bounds} (h : ∀ b ∈ given, b.Possible) :
    ∃ n, ∀ b ∈ given, b.contains n := by
  cases given with
  | none => exact ⟨0, fun b hb => by cases hb⟩
  | some b =>
      refine ⟨b.min, fun other hother => ?_⟩
      obtain rfl := Option.some.inj hother
      exact (h b rfl).contains_min

end Bounds

-- The byte ranges that clauses last gave can be kept to.
def Clause.RangesPossible (clauses : List Clause) : Prop :=
  ∀ measure, ∀ b ∈ lastGiven (·.range? measure) clauses, b.Possible

theorem Clause.rangesPossible_iff {clauses : List Clause} :
    RangesPossible clauses ↔
      (∀ b ∈ lastGiven (·.range? .bytesDown) clauses, b.Possible) ∧
        ∀ b ∈ lastGiven (·.range? .bytesUp) clauses, b.Possible := by
  constructor
  · exact fun h => ⟨h .bytesDown, h .bytesUp⟩
  · rintro ⟨hdown, hup⟩ measure
    cases measure with
    | calls => simp [lastGiven_range?_calls]
    | rows => simp [lastGiven_range?_rows]
    | bytesDown => exact hdown
    | bytesUp => exact hup

namespace Draft

variable {calls rows bytesDown bytesUp : Option Bounds}

-- Each measure has a place of its own in a tally, so its bound can be met by itself.
theorem exists_tally (hcalls : ∀ b ∈ calls, b.Possible) (hrows : ∀ b ∈ rows, b.Possible)
    (hdown : ∀ b ∈ bytesDown, b.Possible) (hup : ∀ b ∈ bytesUp, b.Possible) :
    ∃ t, ∀ bound ∈ bounds calls rows bytesDown bytesUp, bound.2.contains (bound.1.of t) := by
  obtain ⟨n, hn⟩ := Bounds.exists_forall_contains hcalls
  obtain ⟨m, hm⟩ := Bounds.exists_forall_contains hrows
  obtain ⟨down, hdown⟩ := Bounds.exists_forall_contains hdown
  obtain ⟨up, hup⟩ := Bounds.exists_forall_contains hup
  exact ⟨⟨n, 0, m, down, up⟩, forall_bounds_iff.mpr ⟨hn, hm, hdown, hup⟩⟩

end Draft

namespace Expectation

variable {subject : Subject} {clauses : List Clause} {e : Expectation}

-- What is built has possible bounds for calls and rows, as far as it has any, and the byte
-- ranges as they were given.
theorem exists_bounds_of_build (h : build subject clauses = .ok e) :
    ∃ calls rows, (∀ b ∈ calls, b.Possible) ∧ (∀ b ∈ rows, b.Possible) ∧
      e.bounds = Draft.bounds calls rows (Clause.lastGiven (·.range? .bytesDown) clauses)
        (Clause.lastGiven (·.range? .bytesUp) clauses) := by
  obtain ⟨calls, rows, hcalls, hrows, hbounds⟩ := Draft.bounds_of_build h
  rw [Draft.ofClauses_eq] at hcalls hrows hbounds
  refine ⟨calls, rows, ?_, ?_, hbounds⟩
  · rintro b rfl
    exact Bounds.possible_of_combine hcalls
  · rintro b rfl
    exact Bounds.possible_of_combine hrows

theorem forall_possible_iff_of_build (h : build subject clauses = .ok e) :
    (∀ bound ∈ e.bounds, bound.2.min ≤ bound.2.max) ↔ Clause.RangesPossible clauses := by
  obtain ⟨calls, rows, hcalls, hrows, hbounds⟩ := exists_bounds_of_build h
  rw [hbounds, Draft.forall_bounds_iff, Clause.rangesPossible_iff]
  exact ⟨fun hall => hall.2.2, fun hranges => ⟨hcalls, hrows, hranges⟩⟩

theorem exists_tally_iff_of_build (h : build subject clauses = .ok e) :
    (∃ t, ∀ bound ∈ e.bounds, bound.2.contains (bound.1.of t)) ↔
      Clause.RangesPossible clauses := by
  rw [← forall_possible_iff_of_build h]
  constructor
  · rintro ⟨t, ht⟩ bound hbound
    exact Bounds.possible_of_contains (ht bound hbound)
  · intro hall
    obtain ⟨calls, rows, -, -, hbounds⟩ := exists_bounds_of_build h
    rw [hbounds] at hall ⊢
    obtain ⟨hcalls, hrows, hdown, hup⟩ := Draft.forall_bounds_iff.mp hall
    exact Draft.exists_tally hcalls hrows hdown hup

theorem meets_iff_of_build (h : build subject clauses = .ok e) (t : Tally) :
    (∀ bound ∈ e.bounds, bound.2.contains (bound.1.of t)) ↔ Clause.Meets clauses t := by
  have hmeans := means_build subject clauses
  rw [h] at hmeans
  cases hmeans with
  | expectation _ _ _ _ _ _ _ hmeets => exact hmeets t

-- A bound that no tally keeps is broken in every window.
theorem isSome_check_of_build (h : build subject clauses = .ok e)
    (hranges : ¬ Clause.RangesPossible clauses) (w : Window) (ledger : Ledger) :
    (w.check ledger e).isSome := by
  rw [Option.isSome_iff_ne_none, ne_eq, Window.check_eq_none_iff, Window.meets, List.all_eq_true]
  exact fun hmeets => hranges ((exists_tally_iff_of_build h).mp ⟨w.totalOf ledger e, hmeets⟩)

theorem eq_range_of_build (h : build subject clauses = .ok e) {bound : Measure × Bounds}
    (hbound : bound ∈ e.bounds) :
    bound.2.min ≤ bound.2.max ∨ Clause.lastGiven (·.range? bound.1) clauses = some bound.2 := by
  obtain ⟨calls, rows, hcalls, hrows, hbounds⟩ := exists_bounds_of_build h
  rw [hbounds] at hbound
  revert bound
  rw [Draft.forall_bounds_iff]
  exact ⟨fun b hb => .inl (hcalls b hb), fun b hb => .inl (hrows b hb), fun b hb => .inr hb,
    fun b hb => .inr hb⟩

-- The bounds of what is built are possible, and some tally keeps all of them, exactly if the
-- byte ranges that were last given are. Nothing else that no tally can meet is ever built.
-- With another byte range, verification fails in every window.
theorem attainable_iff_of_build (h : build subject clauses = .ok e) :
    (∀ bound ∈ e.bounds,
        bound.2.min ≤ bound.2.max ∨ Clause.lastGiven (·.range? bound.1) clauses = some bound.2) ∧
      ((∀ bound ∈ e.bounds, bound.2.min ≤ bound.2.max) ↔ Clause.RangesPossible clauses) ∧
      ((∃ t, ∀ bound ∈ e.bounds, bound.2.contains (bound.1.of t)) ↔
        Clause.RangesPossible clauses) ∧
      ((∃ t, Clause.Meets clauses t) ↔ Clause.RangesPossible clauses) ∧
      (¬ Clause.RangesPossible clauses → ∀ (w : Window) (ledger : Ledger),
        (w.check ledger e).isSome) := by
  have htally := exists_tally_iff_of_build h
  have hmeets := htally
  simp only [meets_iff_of_build h] at hmeets
  exact ⟨fun bound hbound => eq_range_of_build h hbound, forall_possible_iff_of_build h, htally,
    hmeets, isSome_check_of_build h⟩

-- A range that no tally keeps does no harm if it is replaced.
theorem attainable_iff_of_build_replaced :
    let clauses : List Clause := [.bytesDown ⟨.clamp 5, .clamp 3⟩, .atLeast 1,
      .bytesDown (.atLeast (.clamp 3)), .maxRows 0]
    let e : Expectation := ⟨none, .every,
      [(.calls, .atLeast 1), (.rows, .atMost 0), (.bytesDown, .atLeast (.clamp 3))]⟩
    build .anything clauses = .ok e ∧ ∃ t, Clause.Meets clauses t := by
  intro clauses e
  have hbuild : build .anything clauses = .ok e := rfl
  obtain ⟨-, hbounds, -, hmeets, -⟩ := attainable_iff_of_build hbuild
  exact ⟨hbuild, hmeets.mpr (hbounds.mp (by decide))⟩

-- A byte range with its ends the wrong way round is built and can never be met.
theorem build_keeps_inverted :
    ∃ e, build .sockets [.bytesDown ⟨.clamp 5, .clamp 3⟩] = .ok e ∧
      (∃ bound ∈ e.bounds, bound.2.max < bound.2.min) ∧
      ¬ ∃ t, ∀ bound ∈ e.bounds, bound.2.contains (bound.1.of t) := by
  refine ⟨⟨none, .anySocket, [(.bytesDown, ⟨.clamp 5, .clamp 3⟩)]⟩, rfl, by decide, ?_⟩
  rintro ⟨t, ht⟩
  have hkept := ht _ List.mem_cons_self
  exact absurd (Bounds.possible_of_contains hkept) (by decide)

end Expectation

end CallWatch

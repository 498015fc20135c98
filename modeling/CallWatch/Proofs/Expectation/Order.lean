import CallWatch.Expectation.Draft

namespace CallWatch

-- Where a bound on the measure stands among the bounds of an expectation.
def Measure.place : Measure → Nat
  | .calls => 0
  | .rows => 1
  | .bytesDown => 2
  | .bytesUp => 3

-- At most one bound for each measure: calls, then rows, then bytes down, then bytes up.
def Expectation.InOrder (e : Expectation) : Prop :=
  e.bounds.Pairwise fun a b => a.1.place < b.1.place

-- In this order everything that has an earlier place stands before.
theorem Expectation.InOrder.mem_earlier {e : Expectation} (h : e.InOrder)
    {earlier later : List (Measure × Bounds)} {bound other : Measure × Bounds}
    (hbounds : e.bounds = earlier ++ bound :: later) (hother : other ∈ e.bounds)
    (hplace : other.1.place < bound.1.place) : other ∈ earlier := by
  rw [InOrder, hbounds, List.pairwise_append, List.pairwise_cons] at h
  obtain ⟨-, ⟨hlater, -⟩, -⟩ := h
  rw [hbounds] at hother
  rcases List.mem_append.mp hother with hearlier | hrest
  · exact hearlier
  · rcases List.mem_cons.mp hrest with rfl | hlast
    · exact absurd hplace (Nat.lt_irrefl _)
    · exact absurd (hlater other hlast) (Nat.lt_asymm hplace)

namespace Draft

theorem measures_bounds_sublist (calls rows bytesDown bytesUp : Option Bounds) :
    ((bounds calls rows bytesDown bytesUp).map (·.1)).Sublist
      [.calls, .rows, .bytesDown, .bytesUp] := by
  have hpart (measure : Measure) (given : Option Bounds) :
      ((given.map (measure, ·)).toList.map (·.1)).Sublist [measure] := by
    cases given with
    | none => exact List.nil_sublist _
    | some _ => exact List.Sublist.refl _
  simp only [bounds, List.map_append]
  exact (((hpart .calls calls).append (hpart .rows rows)).append
    (hpart .bytesDown bytesDown)).append (hpart .bytesUp bytesUp)

theorem bounds_of_build {d : Draft} {e : Expectation} (h : d.build = .ok e) :
    ∃ calls rows, d.calls.combine = .ok calls ∧ d.rows.combine = .ok rows ∧
      e.bounds = bounds calls rows d.bytesDown d.bytesUp := by
  rw [build] at h
  split at h
  · cases h
  · cases hcalls : d.calls.combine with
    | error cause =>
        rw [hcalls] at h
        cases h
    | ok calls =>
        cases hrows : d.rows.combine with
        | error cause =>
            rw [hcalls, hrows] at h
            cases h
        | ok rows =>
            rw [hcalls, hrows] at h
            refine ⟨calls, rows, rfl, rfl, ?_⟩
            simp only [bind, Except.bind] at h
            split at h
            · cases h
            · rw [← Except.ok.inj h]

end Draft

theorem Expectation.inOrder_of_build {subject : Subject} {clauses : List Clause}
    {e : Expectation} (h : build subject clauses = .ok e) : e.InOrder := by
  obtain ⟨calls, rows, -, -, hbounds⟩ := Draft.bounds_of_build h
  have hplaces : ((Draft.bounds calls rows (Draft.ofClauses subject clauses).bytesDown
      (Draft.ofClauses subject clauses).bytesUp).map (·.1)).Pairwise
        fun a b => a.place < b.place :=
    .sublist (Draft.measures_bounds_sublist _ _ _ _) (by decide)
  rw [InOrder, hbounds]
  rwa [List.pairwise_map] at hplaces

end CallWatch

import CallWatch.Proofs.Expectation.Given
import CallWatch.Proofs.Expectation.Order

namespace CallWatch

namespace Slots

-- Why the three ways to bound a count contradict one another.
def defect? : Slots → Option Misconfiguration
  | ⟨some _, some _, _⟩ | ⟨some _, _, some _⟩ => some .ambiguous
  | ⟨none, some min, some max⟩ => if max < min then some (.inverted min max) else none
  | _ => none

def Admits (s : Slots) (n : Count) : Prop :=
  (∀ value ∈ s.value, n = value) ∧ (∀ min ∈ s.min, min ≤ n) ∧ ∀ max ∈ s.max, n ≤ max

end Slots

-- What the bounds that clauses last gave ask of a tally.
def Clause.Meets (clauses : List Clause) (t : Tally) : Prop :=
  ∀ measure, (given clauses measure).Admits (measure.of t) ∧
    ∀ bounds ∈ lastGiven (·.range? measure) clauses,
      bounds.min ≤ measure.of t ∧ measure.of t ≤ bounds.max

namespace Bounds

theorem contains_iff {b : Bounds} {n : Count} : b.contains n ↔ b.min ≤ n ∧ n ≤ b.max := by
  rw [contains, Bool.and_eq_true, decide_eq_true_eq, decide_eq_true_eq]

theorem contains_exactly_iff {value n : Count} : (exactly value).contains n ↔ n = value := by
  rw [contains_iff, Count.ext_iff]
  exact ⟨fun ⟨hmin, hmax⟩ => Nat.le_antisymm hmax hmin,
    fun h => ⟨Nat.le_of_eq h.symm, Nat.le_of_eq h⟩⟩

theorem between_of_le {min max : Count} (h : ¬ max < min) : between min max = .ok ⟨min, max⟩ :=
  if_neg h

end Bounds

theorem Count.not_greatest_lt (n : Count) : ¬ Count.greatest < n :=
  Nat.not_lt.mpr n.le_limit

theorem Count.not_lt_zero (n : Count) : ¬ n < 0 :=
  Nat.not_lt_zero _

theorem Count.zero_le (n : Count) : 0 ≤ n :=
  Nat.zero_le _

theorem Count.le_greatest (n : Count) : n ≤ .greatest :=
  n.le_limit

namespace Slots

theorem admits_empty (n : Count) : empty.Admits n := by
  simp [Admits, empty]

theorem combine_of_defect {s : Slots} {cause : Misconfiguration} (h : s.defect? = some cause) :
    s.combine = .error cause := by
  obtain ⟨value, min, max⟩ := s
  cases value <;> cases min <;> cases max <;>
    simp only [defect?, reduceCtorEq, Option.some.injEq] at h
  · split at h
    · rename_i hlt
      rw [← Option.some.inj h]
      simp only [combine, Bounds.combine, Option.getD_some, Bounds.between, hlt, if_true]
      rfl
    · cases h
  all_goals
    rw [← h]
    rfl

-- Without a contradiction there are bounds if anything was given, and they admit what the
-- given values do.
theorem combine_of_no_defect {s : Slots} (h : s.defect? = none) :
    ∃ bounds, s.combine = .ok bounds ∧ (bounds = none ↔ s = .empty) ∧
      ∀ n, (∀ b ∈ bounds, b.contains n) ↔ s.Admits n := by
  have hget {b : Bounds} {n : Count} : (∀ other ∈ some b, other.contains n) ↔ b.contains n := by
    simp
  obtain ⟨value, min, max⟩ := s
  cases value with
  | some value =>
      have hmin : min = none := by cases min <;> simp_all [defect?]
      have hmax : max = none := by cases max <;> simp_all [defect?]
      subst hmin hmax
      refine ⟨some (.exactly value), rfl, by simp [empty], fun n => ?_⟩
      rw [hget, Bounds.contains_exactly_iff]
      simp [Admits]
  | none =>
      cases min with
      | none =>
          cases max with
          | none => exact ⟨none, rfl, by simp [empty], fun n => by simp [Admits]⟩
          | some max =>
              refine ⟨some ⟨0, max⟩, ?_, by simp [empty], fun n => ?_⟩
              · simp only [combine, Bounds.combine, Option.getD_none, Option.getD_some,
                  Bounds.between_of_le max.not_lt_zero]
                rfl
              · rw [hget, Bounds.contains_iff]
                simp [Admits, n.zero_le]
      | some min =>
          have hle : ¬ max.getD .greatest < min := by
            cases max with
            | none => exact min.not_greatest_lt
            | some max =>
                intro hlt
                simp [defect?, show max < min from hlt] at h
          refine ⟨some ⟨min, max.getD .greatest⟩, ?_, by simp [empty], fun n => ?_⟩
          · simp only [combine, Bounds.combine, Option.getD_some, Bounds.between_of_le hle]
            rfl
          · rw [hget, Bounds.contains_iff]
            cases max <;> simp [Admits, n.le_greatest]

end Slots

namespace Draft

variable (d : Draft)

-- A clause on the endpoint narrows the filter or is a contradiction.
theorem add_of_isAbout {c : Clause} (h : c.isAbout .endpoint) :
    d.add c =
      match d.endpoint.narrow c with
      | .ok filter => { d with endpoint := filter }
      | .error reason => d.conflicting reason := by
  obtain ⟨threads, filter, calls, rows, bytesDown, bytesUp, conflict⟩ := d
  cases c with
  | kind kind =>
      cases filter with
      | statements current text =>
          cases current with
          | none => rfl
          | some current =>
              simp only [add, withKind, EndpointFilter.narrow]
              split <;> rfl
      | _ => rfl
  | matching | address | endpoint => cases filter <;> rfl
  | _ => cases h

theorem add_of_not_isAbout {c : Clause} (h : c.isAbout .endpoint = false) :
    (d.add c).endpoint = d.endpoint ∧ (d.add c).conflict = d.conflict := by
  cases c with
  | kind | matching | address | endpoint => cases h
  | _ => exact ⟨rfl, rfl⟩

theorem foldl_add_endpoint (clauses : List Clause) :
    (clauses.foldl add d).endpoint =
        (d.endpoint.narrowAll (clauses.filter (·.isAbout .endpoint))).1 ∧
      (clauses.foldl add d).conflict =
        d.conflict.or (d.endpoint.narrowAll (clauses.filter (·.isAbout .endpoint))).2.head? := by
  induction clauses generalizing d with
  | nil => exact ⟨rfl, (Option.or_none).symm⟩
  | cons c rest ih =>
      rw [List.foldl_cons]
      obtain ⟨hendpoint, hconflict⟩ := ih (d.add c)
      rw [hendpoint, hconflict]
      by_cases hc : c.isAbout .endpoint
      · rw [List.filter_cons, if_pos hc, EndpointFilter.narrowAll, d.add_of_isAbout hc]
        cases d.endpoint.narrow c with
        | ok filter => exact ⟨rfl, rfl⟩
        | error reason =>
            refine ⟨rfl, ?_⟩
            cases hd : d.conflict <;> simp [conflicting, hd]
      · obtain ⟨hsame, hnone⟩ := d.add_of_not_isAbout (Bool.of_not_eq_true hc)
        rw [List.filter_cons, if_neg hc, hsame, hnone]
        exact ⟨rfl, rfl⟩

-- A clause on the endpoint touches nothing else.
theorem add_eq_of_isAbout {c : Clause} (h : c.isAbout .endpoint) :
    d.add c = { d with endpoint := (d.add c).endpoint, conflict := (d.add c).conflict } := by
  rw [d.add_of_isAbout h]
  split <;> rfl

theorem ofClauses_concat (subject : Subject) (clauses : List Clause) (c : Clause) :
    ofClauses subject (clauses ++ [c]) = (ofClauses subject clauses).add c := by
  simp [ofClauses]

-- A part of a draft that a clause either replaces or leaves is as it was last given.
theorem part_ofClauses {α : Type} (part : Draft → Option α) {f : Clause → Option α}
    {subject : Subject} (hstart : part (start subject) = none)
    (hadd : ∀ d c, part (d.add c) = (f c).or (part d)) (clauses : List Clause) :
    part (ofClauses subject clauses) = Clause.lastGiven f clauses := by
  induction clauses using List.reverseRecOn with
  | nil => exact hstart
  | append_singleton clauses c ih =>
      rw [Clause.lastGiven_concat, ← ih, ← hadd, ofClauses_concat]

def slots : Measure → Slots
  | .calls => d.calls
  | .rows => d.rows
  | _ => .empty

def range? : Measure → Option Bounds
  | .bytesDown => d.bytesDown
  | .bytesUp => d.bytesUp
  | _ => none

variable (subject : Subject) (clauses : List Clause)

theorem threads_ofClauses :
    (ofClauses subject clauses).threads = Clause.lastGiven Clause.threads? clauses := by
  refine part_ofClauses Draft.threads rfl (fun d c => ?_) clauses
  cases c with
  | kind | matching | address | endpoint => rw [d.add_eq_of_isAbout rfl]; rfl
  | _ => rfl

theorem slots_add (d : Draft) (c : Clause) (measure : Measure) :
    (d.add c).slots measure = (c.slots measure).over (d.slots measure) := by
  cases c with
  | kind | matching | address | endpoint =>
      rw [d.add_eq_of_isAbout rfl]
      cases measure <;> rfl
  | _ => cases measure <;> rfl

theorem slots_ofClauses (measure : Measure) :
    (ofClauses subject clauses).slots measure = Clause.given clauses measure := by
  induction clauses using List.reverseRecOn with
  | nil => cases measure <;> rfl
  | append_singleton clauses c ih =>
      rw [ofClauses_concat, slots_add, ih, Clause.given_concat]

theorem range?_ofClauses (measure : Measure) :
    (ofClauses subject clauses).range? measure =
      Clause.lastGiven (·.range? measure) clauses := by
  refine part_ofClauses (·.range? measure) (by cases measure <;> rfl) (fun d c => ?_) clauses
  cases c with
  | kind | matching | address | endpoint =>
      rw [d.add_eq_of_isAbout rfl]
      cases measure <;> rfl
  | _ => cases measure <;> rfl

theorem endpoint_ofClauses :
    (ofClauses subject clauses).endpoint = (Clause.endpointGiven subject clauses).1 ∧
      (ofClauses subject clauses).conflict = (Clause.endpointGiven subject clauses).2.head? :=
  (start subject).foldl_add_endpoint clauses

-- The closed form of a draft: each part is what the clauses on it come to.
theorem ofClauses_eq :
    ofClauses subject clauses =
      { threads := Clause.lastGiven Clause.threads? clauses
        endpoint := (Clause.endpointGiven subject clauses).1
        calls := Clause.given clauses .calls
        rows := Clause.given clauses .rows
        bytesDown := Clause.lastGiven (·.range? .bytesDown) clauses
        bytesUp := Clause.lastGiven (·.range? .bytesUp) clauses
        conflict := (Clause.endpointGiven subject clauses).2.head? } := by
  obtain ⟨hendpoint, hconflict⟩ := endpoint_ofClauses subject clauses
  rw [← threads_ofClauses subject, ← hendpoint, ← hconflict, ← slots_ofClauses subject,
    ← slots_ofClauses subject, ← range?_ofClauses subject, ← range?_ofClauses subject]
  rfl

theorem forall_bounds_iff {calls rows bytesDown bytesUp : Option Bounds}
    {P : Measure × Bounds → Prop} :
    (∀ bound ∈ bounds calls rows bytesDown bytesUp, P bound) ↔
      (∀ b ∈ calls, P (.calls, b)) ∧ (∀ b ∈ rows, P (.rows, b)) ∧
        (∀ b ∈ bytesDown, P (.bytesDown, b)) ∧ ∀ b ∈ bytesUp, P (.bytesUp, b) := by
  cases calls <;> cases rows <;> cases bytesDown <;> cases bytesUp <;> simp [bounds]

theorem bounds_eq_nil_iff {calls rows bytesDown bytesUp : Option Bounds} :
    bounds calls rows bytesDown bytesUp = [] ↔
      calls = none ∧ rows = none ∧ bytesDown = none ∧ bytesUp = none := by
  cases calls <;> cases rows <;> cases bytesDown <;> cases bytesUp <;> simp [bounds]

end Draft

namespace Clause

-- What clauses say of an expectation, taken together: a contradiction about the endpoint
-- counts first, then one about calls, then one about rows, then that no bound was given.
-- Without any of them there is an expectation, with bounds that a tally keeps to exactly
-- if it has what was last given.
inductive Means (subject : Subject) (clauses : List Clause) :
    Except Misconfiguration Expectation → Prop where
  | conflicting {reason : String}
      (hconflict : (endpointGiven subject clauses).2.head? = some reason) :
      Means subject clauses (.error (.conflicting reason))
  | calls {cause : Misconfiguration} (hendpoint : (endpointGiven subject clauses).2 = [])
      (hcalls : (given clauses .calls).defect? = some cause) :
      Means subject clauses (.error cause)
  | rows {cause : Misconfiguration} (hendpoint : (endpointGiven subject clauses).2 = [])
      (hcalls : (given clauses .calls).defect? = none)
      (hrows : (given clauses .rows).defect? = some cause) :
      Means subject clauses (.error cause)
  | missing (hendpoint : (endpointGiven subject clauses).2 = [])
      (hcalls : (given clauses .calls).defect? = none)
      (hrows : (given clauses .rows).defect? = none)
      (hbounds : ∀ c ∈ clauses, c.measure? = none) :
      Means subject clauses (.error .missingBounds)
  | expectation {e : Expectation} (hendpoint : (endpointGiven subject clauses).2 = [])
      (hcalls : (given clauses .calls).defect? = none)
      (hrows : (given clauses .rows).defect? = none)
      (hbounds : ∃ c ∈ clauses, c.measure? ≠ none)
      (threads_eq : e.threads = lastGiven threads? clauses)
      (endpoint_eq : e.endpoint = (endpointGiven subject clauses).1) (inOrder : e.InOrder)
      (meets : ∀ t, (∀ bound ∈ e.bounds, bound.2.contains (bound.1.of t)) ↔ Meets clauses t) :
      Means subject clauses (.ok e)

end Clause

theorem Clause.meets_iff {clauses : List Clause} {t : Tally} :
    Meets clauses t ↔
      (given clauses .calls).Admits t.calls ∧ (given clauses .rows).Admits t.rows ∧
        (∀ b ∈ lastGiven (·.range? .bytesDown) clauses, b.contains t.bytesDown) ∧
        ∀ b ∈ lastGiven (·.range? .bytesUp) clauses, b.contains t.bytesUp := by
  simp only [Bounds.contains_iff]
  constructor
  · intro h
    exact ⟨(h .calls).1, (h .rows).1, (h .bytesDown).2, (h .bytesUp).2⟩
  · rintro ⟨hcalls, hrows, hdown, hup⟩ measure
    cases measure with
    | calls => exact ⟨hcalls, by simp [lastGiven_range?_calls]⟩
    | rows => exact ⟨hrows, by simp [lastGiven_range?_rows]⟩
    | bytesDown => exact ⟨by simp [given_bytesDown, Slots.admits_empty], hdown⟩
    | bytesUp => exact ⟨by simp [given_bytesUp, Slots.admits_empty], hup⟩

namespace Expectation

section

variable {subject : Subject} {clauses : List Clause}

theorem build_of_conflict {reason : String}
    (h : (Clause.endpointGiven subject clauses).2.head? = some reason) :
    build subject clauses = .error (.conflicting reason) := by
  rw [build, Draft.ofClauses_eq, Draft.build, h]

variable (h : (Clause.endpointGiven subject clauses).2 = [])
include h

theorem build_of_calls {cause : Misconfiguration}
    (hcalls : (Clause.given clauses .calls).combine = .error cause) :
    build subject clauses = .error cause := by
  rw [build, Draft.ofClauses_eq, Draft.build, h, hcalls]
  rfl

variable {calls : Option Bounds} (hcalls : (Clause.given clauses .calls).combine = .ok calls)
include hcalls

theorem build_of_rows {cause : Misconfiguration}
    (hrows : (Clause.given clauses .rows).combine = .error cause) :
    build subject clauses = .error cause := by
  rw [build, Draft.ofClauses_eq, Draft.build, h, hcalls, hrows]
  rfl

-- Without a contradiction it is left to the bounds.
theorem build_of_bounds {rows : Option Bounds} {bounds : List (Measure × Bounds)}
    (hrows : (Clause.given clauses .rows).combine = .ok rows)
    (hbounds : Draft.bounds calls rows (Clause.lastGiven (·.range? .bytesDown) clauses)
      (Clause.lastGiven (·.range? .bytesUp) clauses) = bounds) :
    build subject clauses =
      if bounds = [] then .error .missingBounds
      else .ok ⟨Clause.lastGiven Clause.threads? clauses,
        (Clause.endpointGiven subject clauses).1, bounds⟩ := by
  rw [build, Draft.ofClauses_eq, Draft.build, h, hcalls, hrows]
  cases bounds with
  | nil => simp only [List.head?_nil, bind, Except.bind, hbounds, if_true]
  | cons first rest =>
      simp only [List.head?_nil, bind, Except.bind, hbounds, reduceCtorEq, if_false]

end

section

variable {subject : Subject} {clauses : List Clause}

-- Nothing contradicts anything: what is left is whether a bound was given at all.
theorem means_of_no_defect (h : (Clause.endpointGiven subject clauses).2 = [])
    (hcalls : (Clause.given clauses .calls).defect? = none)
    (hrows : (Clause.given clauses .rows).defect? = none) :
    Clause.Means subject clauses (build subject clauses) := by
  obtain ⟨calls, hcallsOk, hcallsNone, hcallsAdmit⟩ := Slots.combine_of_no_defect hcalls
  obtain ⟨rows, hrowsOk, hrowsNone, hrowsAdmit⟩ := Slots.combine_of_no_defect hrows
  have hbuild := build_of_bounds h hcallsOk hrowsOk rfl
  split at hbuild
  · rename_i hnil
    rw [Draft.bounds_eq_nil_iff, hcallsNone, hrowsNone,
      ← Clause.forall_measure?_eq_none_iff] at hnil
    rw [hbuild]
    exact .missing h hcalls hrows hnil
  · rename_i hsome
    rw [Draft.bounds_eq_nil_iff, hcallsNone, hrowsNone,
      ← Clause.forall_measure?_eq_none_iff] at hsome
    have horder := inOrder_of_build hbuild
    rw [hbuild]
    refine .expectation h hcalls hrows (by simpa using hsome) rfl rfl horder fun t => ?_
    rw [Draft.forall_bounds_iff, Clause.meets_iff, ← hcallsAdmit, ← hrowsAdmit]
    rfl

end

variable (subject : Subject) (clauses : List Clause)

theorem means_build : Clause.Means subject clauses (build subject clauses) := by
  cases hreasons : (Clause.endpointGiven subject clauses).2 with
  | cons reason rest =>
      have hconflict : (Clause.endpointGiven subject clauses).2.head? = some reason := by
        rw [hreasons, List.head?_cons]
      rw [build_of_conflict hconflict]
      exact .conflicting hconflict
  | nil =>
      cases hcalls : (Clause.given clauses .calls).defect? with
      | some cause =>
          rw [build_of_calls hreasons (Slots.combine_of_defect hcalls)]
          exact .calls hreasons hcalls
      | none =>
          cases hrows : (Clause.given clauses .rows).defect? with
          | some cause =>
              obtain ⟨calls, hcallsOk, -, -⟩ := Slots.combine_of_no_defect hcalls
              rw [build_of_rows hreasons hcallsOk (Slots.combine_of_defect hrows)]
              exact .rows hreasons hcalls hrows
          | none => exact means_of_no_defect hreasons hcalls hrows

-- Only the order of the clauses on one topic matters, not how the topics are interleaved.
theorem build_congr {subject : Subject} {clauses others : List Clause}
    (h : ∀ topic, others.filter (·.isAbout topic) = clauses.filter (·.isAbout topic)) :
    build subject others = build subject clauses := by
  have hgiven (measure : Measure) :
      Clause.given others measure = Clause.given clauses measure := by
    simp only [Clause.given, Clause.lastGiven_congr _ (fun _ => rfl) (h (.exact measure)),
      Clause.lastGiven_congr _ (fun _ => rfl) (h (.least measure)),
      Clause.lastGiven_congr _ (fun _ => rfl) (h (.greatest measure))]
  have hrange (measure : Measure) :=
    Clause.lastGiven_congr (·.range? measure) (fun _ => rfl) (h (.range measure))
  rw [build, build, Draft.ofClauses_eq, Draft.ofClauses_eq, Clause.endpointGiven, h .endpoint,
    Clause.lastGiven_congr _ (fun _ => rfl) (h .threads), hgiven, hgiven, hrange, hrange]
  rfl

-- What is built of clauses is what they mean together, and clauses that are interleaved in
-- another way mean the same.
theorem build_means_given :
    Clause.Means subject clauses (build subject clauses) ∧
      ∀ others : List Clause,
        (∀ topic, others.filter (·.isAbout topic) = clauses.filter (·.isAbout topic)) →
          build subject others = build subject clauses :=
  ⟨means_build subject clauses, fun _ h => build_congr h⟩

theorem build_means_given_interleaved :
    build .statements [.kind .select, .atMost .greatest, .atLeast 1] =
      build .statements [.atLeast 1, .kind .select, .atMost .greatest] :=
  (build_means_given .statements [.atLeast 1, .kind .select, .atMost .greatest]).2 _ fun topic => by
    cases topic with
    | endpoint | threads => decide
    | exact measure | least measure | greatest measure | range measure =>
        cases measure <;> decide

end Expectation

end CallWatch

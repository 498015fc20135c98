import CallWatch.Proofs.Expectation.Order
import CallWatch.Proofs.Window.Observed
import Mathlib.Data.List.Forall2

namespace CallWatch

namespace Failures

-- The failures that come up from cause to cause, ending with one that has none.
inductive Chain : Failures → List Failure → Prop where
  | last {f : Failures} (h : f.cause? = none) : Chain f [f.first]
  | caused {f cause : Failures} {rest : List Failure} (h : f.cause? = some cause)
      (hrest : Chain cause rest) : Chain f (f.first :: rest)

theorem ofList?_cons (first : Failure) (later : List Failure) :
    ofList? (first :: later) = some ⟨first, ofList? later⟩ := by
  rw [ofList?, List.reverse_cons, List.foldl_append]
  rfl

-- Although it is built from the last failure on, the chain of the failures found is the one
-- that starts with the first of them and goes on in their order.
theorem ofList?_eq_some_iff {found : List Failure} {f : Failures} :
    ofList? found = some f ↔ f.Chain found := by
  constructor
  · intro h
    induction found generalizing f with
    | nil => cases h
    | cons first later ih =>
        rw [ofList?_cons] at h
        rw [← Option.some.inj h]
        cases later with
        | nil => exact .last rfl
        | cons second rest =>
            have hlater := ofList?_cons second rest
            exact .caused hlater (ih hlater)
  · intro h
    induction h with
    | @last f hnone =>
        obtain ⟨first, cause?⟩ := f
        cases hnone
        rfl
    | @caused f cause rest hcause _ ih =>
        obtain ⟨first, cause?⟩ := f
        cases hcause
        rw [ofList?_cons, ih]

-- What is met from cause to cause is one list, and listing it finds that one.
theorem chain_iff_toList_eq {f : Failures} {found : List Failure} :
    f.Chain found ↔ f.toList = found := by
  constructor
  · intro h
    induction h with
    | @last f hnone =>
        obtain ⟨first, cause?⟩ := f
        cases hnone
        rfl
    | @caused f cause rest hcause _ ih =>
        obtain ⟨first, cause?⟩ := f
        cases hcause
        exact congrArg (first :: ·) ih
  · rintro rfl
    fun_induction toList f with
    | case1 first => exact .last rfl
    | case2 first cause ih => exact .caused rfl ih

end Failures

namespace Window

-- The threads that an expectation is about: its own scope, or else the window's.
def scopeOf (w : Window) (e : Expectation) : ThreadScope :=
  e.threads.getD w.threads

def totalOf (w : Window) (ledger : Ledger) (e : Expectation) : Tally :=
  w.totals ledger (w.scopeOf e) e.endpoint

def meets (w : Window) (ledger : Ledger) (e : Expectation) : Bool :=
  e.bounds.all fun (measure, bounds) => bounds.contains (measure.of (w.totalOf ledger e))

-- What a failure has to tell about the expectation that is not met. The bound it names is
-- the first that is broken.
structure Reports (w : Window) (ledger : Ledger) (e : Expectation) (f : Failure) : Prop where
  threads : f.threads = w.scopeOf e
  endpoint : f.endpoint = e.endpoint
  observed : f.observed = f.measure.of (w.totalOf ledger e)
  broken : f.bounds.contains f.observed = false
  first : ∃ earlier later, e.bounds = earlier ++ (f.measure, f.bounds) :: later ∧
    ∀ b ∈ earlier, b.2.contains (b.1.of (w.totalOf ledger e))
  inOrder : e.InOrder → ∀ b ∈ e.bounds, b.1.place < f.measure.place →
    b.2.contains (b.1.of (w.totalOf ledger e))
  records : f.records = w.diff ledger (w.scopeOf e) e.endpoint .withoutSite

-- What verification has to find: nothing if every expectation is met, and else one failure
-- for each that is not, in the order of the expectations.
inductive Finds (w : Window) (ledger : Ledger) : Option WindowError → Prop where
  | nothing (h : ∀ e ∈ w.expectations, w.meets ledger e) : Finds w ledger none
  | failures {reported : Failures} {found : List Failure} (hchain : reported.Chain found)
      (hfound : List.Forall₂ (w.Reports ledger)
        (w.expectations.filter fun e => !w.meets ledger e) found) :
      Finds w ledger (some (.verification reported))

variable {w : Window} {ledger : Ledger}

theorem check_eq_none_iff {e : Expectation} : w.check ledger e = none ↔ w.meets ledger e := by
  rw [check, Option.map_eq_none_iff, Expectation.firstBroken?, List.find?_eq_none, meets,
    List.all_eq_true]
  simp only [Bool.not_eq_true', Bool.not_eq_false]
  rfl

theorem reports_of_check {e : Expectation} {f : Failure} (h : w.check ledger e = some f) :
    w.Reports ledger e f := by
  obtain ⟨⟨measure, bounds⟩, hbroken, rfl⟩ := Option.map_eq_some_iff.mp h
  obtain ⟨hout, earlier, later, hbounds, hmet⟩ := List.find?_eq_some_iff_append.mp hbroken
  have hearlier : ∀ b ∈ earlier, b.2.contains (b.1.of (w.totalOf ledger e)) := by
    intro b hb
    have hkept := hmet b hb
    rwa [Bool.not_not] at hkept
  refine ⟨rfl, rfl, rfl, by simpa using hout, ⟨earlier, later, hbounds, hearlier⟩, ?_, rfl⟩
  intro horder b hb hplace
  exact hearlier b (horder.mem_earlier hbounds hb hplace)

-- A failure names the bound that a look at the total finds first.
theorem Reports.firstBroken?_eq {e : Expectation} {f : Failure} (h : w.Reports ledger e f) :
    e.firstBroken? (w.totalOf ledger e) = some (f.measure, f.bounds) := by
  obtain ⟨earlier, later, hbounds, hmet⟩ := h.first
  have hbroken : (!f.bounds.contains (f.measure.of (w.totalOf ledger e))) = true := by
    rw [← h.observed, h.broken]
    rfl
  refine List.find?_eq_some_iff_append.mpr ⟨hbroken, earlier, later, hbounds, fun b hb => ?_⟩
  rw [Bool.not_not]
  exact hmet b hb

-- Each failing expectation is reported once, where it stands.
theorem forall₂_failures (w : Window) (ledger : Ledger) :
    List.Forall₂ (w.Reports ledger) (w.expectations.filter fun e => !w.meets ledger e)
      (w.failures ledger) := by
  rw [failures]
  induction w.expectations with
  | nil => exact .nil
  | cons e rest ih =>
      cases hcheck : w.check ledger e with
      | none =>
          have hmet := check_eq_none_iff.mp hcheck
          rw [List.filterMap_cons_none hcheck, List.filter_cons_of_neg (by simp [hmet])]
          exact ih
      | some f =>
          have hbroken : w.meets ledger e = false := by
            apply Bool.of_not_eq_true
            rw [← check_eq_none_iff, hcheck]
            exact Option.some_ne_none f
          rw [List.filterMap_cons_some hcheck, List.filter_cons_of_pos (by simp [hbroken])]
          exact .cons (reports_of_check hcheck) ih

theorem finds_verifyAll (w : Window) (ledger : Ledger) : w.Finds ledger (w.verifyAll ledger) := by
  have hfound := w.forall₂_failures ledger
  rw [verifyAll]
  cases hfailures : w.failures ledger with
  | nil =>
      refine .nothing fun e he => ?_
      rw [failures, List.filterMap_eq_nil_iff] at hfailures
      exact check_eq_none_iff.mp (hfailures e he)
  | cons first later =>
      have hchain := Failures.ofList?_cons first later
      rw [hfailures] at hfound
      rw [hchain]
      exact .failures (Failures.ofList?_eq_some_iff.mp hchain) hfound

theorem Finds.eq_none_iff {found : Option WindowError} (h : w.Finds ledger found) :
    found = none ↔ ∀ e ∈ w.expectations, w.meets ledger e := by
  cases h with
  | nothing hmet => exact iff_of_true rfl hmet
  | failures hchain hfound =>
      refine iff_of_false (Option.some_ne_none _) fun hmet => ?_
      rw [List.filter_eq_nil_iff.mpr (by simpa using hmet), List.forall₂_nil_left_iff] at hfound
      subst hfound
      cases hchain

theorem Finds.exists_failures {found : Option WindowError} (h : w.Finds ledger found)
    {e : Expectation} (he : e ∈ w.expectations) (hunmet : w.meets ledger e = false) :
    ∃ reported, found = some (.verification reported) := by
  cases h with
  | nothing hmet => exact absurd (hunmet.symm.trans (hmet e he)) Bool.false_ne_true
  | failures hchain hfound => exact ⟨_, rfl⟩

theorem meets_of_keeps_nil (w : Window) (h : ledger.Keeps []) (e : Expectation) :
    w.meets ledger e = e.bounds.all fun (measure, bounds) => bounds.contains (measure.of 0) := by
  rw [meets, totalOf, totals_of_keeps_nil w h]

end Window

namespace Session

-- Verification of an open window is done when every bound of every expectation is kept.
-- Else it fails with the failures of those expectations that are not met, each once, in the
-- order in which they were registered. Clauses put bounds in order.
theorem verify_reports_failing {s : Session} {name : String} {number : Nat} {w : Watched}
    (hw : s.guardedWindow? name = some (number, w)) (hopen : w.window.closedAt = none) :
    ((s.perform (.watching name .verify)).2.1 = .done ↔
        ∀ e ∈ w.window.expectations, w.window.meets (s.ledgerOf w.source) e) ∧
      ((s.perform (.watching name .verify)).2.1 ≠ .done →
        ∃ reported found,
          (s.perform (.watching name .verify)).2.1 = .failed (.verification reported) ∧
            reported.Chain found ∧
            List.Forall₂ (w.window.Reports (s.ledgerOf w.source))
              (w.window.expectations.filter fun e => !w.window.meets (s.ledgerOf w.source) e)
              found) ∧
      ∀ subject clauses e, Expectation.build subject clauses = .ok e → e.InOrder := by
  have hfinds := w.window.finds_verifyAll (s.ledgerOf w.source)
  have hreply : (s.perform (.watching name .verify)).2.1 =
      verified (w.window.verifyAll (s.ledgerOf w.source)) := by
    rw [reply_watching hw, watch, Window.whenOpen, hopen]
    rfl
  rw [hreply]
  refine ⟨?_, fun hne => ?_, fun subject clauses e h => Expectation.inOrder_of_build h⟩
  · rw [← hfinds.eq_none_iff]
    cases w.window.verifyAll (s.ledgerOf w.source) <;> simp [verified]
  · cases hfound : w.window.verifyAll (s.ledgerOf w.source) with
    | none =>
        rw [hfound] at hne
        exact absurd rfl hne
    | some error =>
        rw [hfound] at hfinds
        cases hfinds with
        | failures hchain hreports => exact ⟨_, _, rfl, hchain, hreports⟩

-- Of three expectations the second is met. The first is not, as two statements are counted
-- where one is expected. Nor is the third, as another thread keeps to one call, but sends
-- less than it should. A statement from before the window began has no part in it.
theorem verify_reports_failing_recorded :
    let once : Expectation := ⟨none, .anyStatement, [(.calls, .exactly 1)]⟩
    let alone : Expectation := ⟨some .others, .anyStatement, [(.calls, .never)]⟩
    let loaded : Expectation :=
      ⟨some .others, .anySocket, [(.calls, .atMost 1), (.bytesUp, .atLeast (.clamp 6))]⟩
    let query : Endpoint := .statement ⟨"select 1", .select⟩
    let socket : Socket := ⟨"db", 5432, 1, none⟩
    let own (site : String) : Key := ⟨query, ⟨some ⟨7, none, none⟩, some ⟨site⟩⟩⟩
    let other : Origin := ⟨some ⟨8, none, none⟩, none⟩
    let selected (rows : Nat) : Tally := .statement (.ofNanos 1) (.clamp rows)
    let earlier :=
      ((start .standard none none).perform (.recording (.record (own "main") (selected 1)))).1
    let opened := (earlier.perform (.openWindow "spy" 7 (some (.ok once)))).1
    let more := (opened.perform (.watching "spy" (.expect (.ok alone)))).1
    let watched := (more.perform (.watching "spy" (.expect (.ok loaded)))).1
    let first := (watched.perform (.recording (.record (own "main") (selected 2)))).1
    let second := (first.perform (.recording (.record (own "helper") (selected 3)))).1
    let s := (second.perform (.recording (.transfer socket other .sent 0 [1, 2, 3]))).1
    ∃ w reported found, s.guardedWindow? "spy" = some (0, w) ∧
      (s.perform (.watching "spy" .verify)).2.1 = .failed (.verification reported) ∧
      reported.Chain found ∧
      List.Forall₂ (w.window.Reports (s.ledgerOf w.source)) [once, loaded] found ∧
      reported.toList.map (fun f => (f.measure, f.observed.toNat, f.records.toList)) =
        [(.calls, 2,
            [(⟨query, (own "main").origin.withoutSite⟩, ⟨.clamp 2, .clamp 2, .clamp 5, 0, 0⟩)]),
          (.bytesUp, 3, [(⟨.socket socket, other⟩, .sent (.clamp 3))])] := by
  intro once alone loaded query socket own other selected earlier opened more watched first second s
  let old := [(own "main", selected 1)]
  let later := [(own "main", selected 2), (own "helper", selected 3),
    (⟨.socket socket, other⟩, Tap.transferTally .sent 3)]
  have h : Reached s [.changed .tap (.record (own "main") (selected 1)), .opened 0 7 .tap,
      .changed .tap (.record (own "main") (selected 2)),
      .changed .tap (.record (own "helper") (selected 3)),
      .changed .tap (.record ⟨.socket socket, other⟩ (Tap.transferTally .sent 3))] :=
    .act (.act (.act (.act (.act (.act (.act (.start .standard none none) _) _) _) _) _) _) _
  let w : Watched := ⟨{ Window.openOn .standard 7 (earlier.ledgerOf .tap) earlier.tap.traffic with
    expectations := [once, alone, loaded] }, .tap⟩
  have hw : s.guardedWindow? "spy" = some (0, w) := rfl
  have hledger : (s.ledgerOf w.source).Keeps (old ++ later) := h.follows.ledger .tap
  have hrecalls : w.window.Recalls old [] := h.follows.recalls 0 w rfl
  have honce : w.window.totalOf (s.ledgerOf w.source) once = selected 2 + selected 3 :=
    (Window.totals_eq_observed hledger hrecalls .current .anyStatement).trans (by decide)
  have halone : w.window.totalOf (s.ledgerOf w.source) alone = 0 :=
    (Window.totals_eq_observed hledger hrecalls .others .anyStatement).trans (by decide)
  have hloaded : w.window.totalOf (s.ledgerOf w.source) loaded = .sent (.clamp 3) :=
    (Window.totals_eq_observed hledger hrecalls .others .anySocket).trans (by decide)
  have hfilter : w.window.expectations.filter
      (fun e => !w.window.meets (s.ledgerOf w.source) e) = [once, loaded] := by
    change [once, alone, loaded].filter _ = _
    simp only [List.filter, Window.meets, honce, halone, hloaded]
    decide
  have hunmet : w.window.meets (s.ledgerOf w.source) once = false := by
    rw [Window.meets, honce]
    decide
  obtain ⟨hdone, hfailed, -⟩ := verify_reports_failing hw rfl
  have hne : (s.perform (.watching "spy" .verify)).2.1 ≠ .done := fun hreply =>
    Bool.false_ne_true (hunmet.symm.trans (hdone.mp hreply once List.mem_cons_self))
  obtain ⟨reported, found, hreply, hchain, hreports⟩ := hfailed hne
  rw [hfilter] at hreports
  refine ⟨w, reported, found, hw, hreply, hchain, hreports, ?_⟩
  rw [Failures.chain_iff_toList_eq.mp hchain]
  obtain ⟨counted, _, hcounted, hrest, rfl⟩ := List.forall₂_cons_left_iff.mp hreports
  obtain ⟨sent, _, hsent, hnone, rfl⟩ := List.forall₂_cons_left_iff.mp hrest
  obtain rfl := List.forall₂_nil_left_iff.mp hnone
  have hcalls := hcounted.firstBroken?_eq
  have hbytes := hsent.firstBroken?_eq
  rw [honce] at hcalls
  rw [hloaded] at hbytes
  have hmeasures : counted.measure = .calls ∧ sent.measure = .bytesUp :=
    ⟨(congrArg Prod.fst (Option.some.inj hcalls)).symm,
      (congrArg Prod.fst (Option.some.inj hbytes)).symm⟩
  have hstatements : counted.records.toList =
      [(⟨query, (own "main").origin.withoutSite⟩, ⟨.clamp 2, .clamp 2, .clamp 5, 0, 0⟩)] := by
    rw [hcounted.records, Window.toList_diff_eq hledger hrecalls]
    decide
  have htransfers : sent.records.toList = [(⟨.socket socket, other⟩, .sent (.clamp 3))] := by
    rw [hsent.records, Window.toList_diff_eq hledger hrecalls]
    decide
  simp only [List.map_cons, List.map_nil, hcounted.observed, hsent.observed, hmeasures.1,
    hmeasures.2, honce, hloaded, hstatements, htransfers]
  decide

end Session

end CallWatch

import CallWatch.Proofs.Window.Bounds
import CallWatch.Window.Verify

namespace CallWatch

namespace Window

variable (w : Window) (ledger : Ledger)

-- What the keys of a window gained adds up without a counter reaching its limit.
def AddsUp (filter : EndpointFilter) : Prop :=
  ∀ c, Tally.readSum c ((w.diff ledger .any filter .full).toList.map (·.2)) ≤ Count.limit

theorem toList_diff_full (scope : ThreadScope) (filter : EndpointFilter) :
    (w.diff ledger scope filter .full).toList = w.gains ledger scope filter := by
  have hkeys : (w.gains ledger scope filter).map (fun e => (e.1.coarsen .full, e.2)) =
      w.gains ledger scope filter :=
    List.map_id _
  rw [toList_diff, hkeys]
  exact Key.collect_eq_self _ (w.distinct_gains ledger scope filter)

theorem gains_current_append_others_perm (filter : EndpointFilter) :
    (w.gains ledger .current filter ++ w.gains ledger .others filter).Perm
      (w.gains ledger .any filter) := by
  rw [w.gains_eq_filter ledger .current, w.gains_eq_filter ledger .others]
  exact List.filter_append_perm _ _

theorem readSum_current_add_others (filter : EndpointFilter) (c : Tally.Counter) :
    Tally.readSum c ((w.gains ledger .current filter).map (·.2)) +
        Tally.readSum c ((w.gains ledger .others filter).map (·.2)) =
      Tally.readSum c ((w.gains ledger .any filter).map (·.2)) := by
  have hperm := (w.gains_current_append_others_perm ledger filter).map Prod.snd
  rw [← Tally.readSum_perm c hperm, List.map_append, Tally.readSum_append]

variable {w ledger}

-- The whole less the owner's share is the share of the others only while the whole was
-- not cut off at the limit.
theorem totals_others_eq_total_diff {filter : EndpointFilter} (h : w.AddsUp ledger filter)
    (detail : Detail) :
    w.totals ledger .others filter = (w.diff ledger .others filter detail).total := by
  apply Tally.ext_read
  intro c
  have hsum := w.readSum_current_add_others ledger filter c
  have hwhole := h c
  rw [toList_diff_full] at hwhole
  rw [totals_others, totals_any, totals_current, total_diff, Tally.read_sub, Tally.read_sum,
    Tally.read_sum, Tally.read_sum]
  omega

theorem totals_eq_total_diff {scope : ThreadScope} {filter : EndpointFilter}
    (h : scope = .others → w.AddsUp ledger filter) (detail : Detail) :
    w.totals ledger scope filter = (w.diff ledger scope filter detail).total := by
  cases scope with
  | any => rw [totals_any, total_diff]
  | current => rw [totals_current, total_diff]
  | others => exact totals_others_eq_total_diff (h rfl) detail

theorem observed_eq_of_check {e : Expectation} {f : Failure} (hf : w.check ledger e = some f)
    (h : f.threads = .others → w.AddsUp ledger f.endpoint) :
    f.observed = f.measure.of f.records.total := by
  obtain ⟨broken, -, rfl⟩ := Option.map_eq_some_iff.mp hf
  exact congrArg broken.1.of (totals_eq_total_diff h .withoutSite)

end Window

namespace Session

-- Totals are what the entries of a diff come to, under every grouping, and what a failed
-- expectation observed is what its records come to. For the share of the other threads
-- both need counters that were not cut off.
theorem totals_eq_total_of_diff {s : Session} {name : String} {number : Nat} {w : Watched}
    (hw : s.guardedWindow? name = some (number, w)) (hopen : w.window.closedAt = none) :
    (∀ scope filter detail, ∃ total summary,
      (s.perform (.watching name (.totals scope filter))).2.1 = .total total ∧
        (s.perform (.watching name (.diff scope filter detail))).2.1 = .summary summary ∧
        ((scope = .others → w.window.AddsUp (s.ledgerOf w.source) filter) →
          total = summary.total)) ∧
      ∀ e f, w.window.check (s.ledgerOf w.source) e = some f →
        (f.threads = .others → w.window.AddsUp (s.ledgerOf w.source) f.endpoint) →
          f.observed = f.measure.of f.records.total := by
  constructor
  · intro scope filter detail
    refine ⟨w.window.totals (s.ledgerOf w.source) scope filter,
      w.window.diff (s.ledgerOf w.source) scope filter detail, ?_, ?_, fun h => ?_⟩
    · rw [reply_watching hw, watch, Window.whenOpen, hopen]
      rfl
    · rw [reply_watching hw, watch, Window.whenOpen, hopen]
      rfl
    · exact Window.totals_eq_total_diff h detail
  · intro e f hf h
    exact Window.observed_eq_of_check hf h

-- A call of another thread than the owner's, which an expectation rules out.
theorem totals_eq_total_of_diff_elsewhere :
    let key : Key := ⟨.statement ⟨"select 1", .select⟩, ⟨some ⟨8, none, none⟩, none⟩⟩
    let expectation : Expectation := ⟨some .others, .every, [(.calls, .never)]⟩
    let opened := ((start .standard none none).perform (.openWindow "spy" 7 none)).1
    let s := (opened.perform (.recording (.record key (.received (.clamp 5))))).1
    (∃ total summary,
      (s.perform (.watching "spy" (.totals .others .every))).2.1 = .total total ∧
        (s.perform (.watching "spy" (.diff .others .every .endpointOnly))).2.1 =
          .summary summary ∧
        total = summary.total) ∧
      ∃ w f, s.guardedWindow? "spy" = some (0, w) ∧
        w.window.check (s.ledgerOf w.source) expectation = some f ∧
        f.observed = f.measure.of f.records.total := by
  intro key expectation opened s
  have h : Reached s [.opened 0 7 .tap, .changed .tap (.record key (.received (.clamp 5)))] :=
    .act (.act (.start .standard none none) _) _
  let w : Watched := ⟨.openOn .standard 7 ((start .standard none none).ledgerOf .side)
    (start .standard none none).tap.traffic, .side⟩
  have hw : s.guardedWindow? "spy" = some (0, w) := rfl
  have hrecalls := h.follows.recalls 0 w rfl
  have hgains (scope : ThreadScope) :
      w.window.gains (s.ledgerOf w.source) scope .every =
        (Window.observed [] [(key, .received (.clamp 5))] 7 scope .every).map
          fun k => (k, Window.gained [] [(key, .received (.clamp 5))] k) :=
    Window.gains_eq_observed (h.follows.ledger w.source) hrecalls scope .every
  have haddsUp : w.window.AddsUp (s.ledgerOf w.source) .every := by
    intro c
    rw [Window.toList_diff_full, hgains]
    cases c <;> decide
  obtain ⟨htotals, hchecks⟩ := totals_eq_total_of_diff hw rfl
  obtain ⟨total, summary, htotal, hsummary, heq⟩ := htotals .others .every .endpointOnly
  have hone : w.window.totals (s.ledgerOf w.source) .others .every = .received (.clamp 5) := by
    rw [Window.totals_others, Window.totals_any, Window.totals_current, hgains, hgains]
    decide
  have hbroken : expectation.firstBroken?
      (w.window.totals (s.ledgerOf w.source) .others .every) = some (.calls, .never) := by
    rw [hone]
    decide
  have hcheck : ∃ f, w.window.check (s.ledgerOf w.source) expectation = some f ∧
      f.endpoint = .every :=
    ⟨_, congrArg (Option.map _) hbroken, rfl⟩
  obtain ⟨f, hf, hevery⟩ := hcheck
  refine ⟨⟨total, summary, htotal, hsummary, heq fun _ => haddsUp⟩, w, f, hw, hf, ?_⟩
  exact hchecks expectation f hf fun _ => hevery ▸ haddsUp

end Session

end CallWatch

import CallWatch.Proofs.Ledger.Replay
import CallWatch.Window.Basic

namespace CallWatch.Window

variable (w : Window) (ledger : Ledger)

theorem isThread_congr {a b : Key} (h : a == b) (owner : Nat) :
    a.origin.isThread owner = b.origin.isThread owner := by
  have hthread : a.origin.threadId? = b.origin.threadId? :=
    congrArg Key.Identity.thread (Key.beq_iff.mp h)
  rw [Origin.isThread, Origin.isThread, hthread]

theorem respects_scope (scope : ThreadScope) (owner : Nat) :
    Key.Respects fun key => scope.accepts key.origin owner := by
  intro a b h
  cases scope with
  | any => rfl
  | current => exact isThread_congr h owner
  | others => exact congrArg (!·) (isThread_congr h owner)

theorem respects_filter (filter : EndpointFilter) :
    Key.Respects fun key => filter.accepts key.endpoint := by
  intro a b h
  have hendpoint : a.endpoint = b.endpoint :=
    congrArg Key.Identity.endpoint (Key.beq_iff.mp h)
  simp only [hendpoint]

theorem respects_shows (scope : ThreadScope) (filter : EndpointFilter) :
    Key.Respects (w.shows scope filter) := by
  intro a b h
  have hfilter := respects_filter filter a b h
  have hscope := respects_scope scope w.owner a b h
  simp only [shows, hfilter, hscope]

theorem shows_eq (scope : ThreadScope) (filter : EndpointFilter) (key : Key) :
    w.shows scope filter key = (w.shows .any filter key && scope.accepts key.origin w.owner) := by
  simp [shows, ThreadScope.accepts]

theorem gains_eq (scope : ThreadScope) (filter : EndpointFilter) :
    w.gains ledger scope filter =
      (((Roll.ofList ledger.roll).filter (w.shows scope filter ·.1)).map
        fun e => (e.1, w.gain e.1 e.2)).filter fun e => !e.2.isZero := by
  rw [gains, ledger.toList_summary_full (w.respects_shows scope filter)]

-- Scope and filter only leave keys out: what a key gained depends on neither.
theorem gains_eq_filter_shows (scope : ThreadScope) (filter : EndpointFilter) :
    w.gains ledger scope filter =
      (w.gains ledger .any .every).filter (w.shows scope filter ·.1) := by
  have hall : (Roll.ofList ledger.roll).filter (w.shows .any .every ·.1) =
      Roll.ofList ledger.roll :=
    List.filter_eq_self.mpr fun _ _ => rfl
  have hmap : ((Roll.ofList ledger.roll).filter (w.shows scope filter ·.1)).map
        (fun e => (e.1, w.gain e.1 e.2)) =
      ((Roll.ofList ledger.roll).map fun e => (e.1, w.gain e.1 e.2)).filter
        (w.shows scope filter ·.1) := by
    rw [List.filter_map]
    rfl
  rw [gains_eq, gains_eq, hall, hmap, List.filter_filter, List.filter_filter]
  apply List.filter_congr
  intro e _
  exact Bool.and_comm _ _

theorem gains_eq_filter (scope : ThreadScope) (filter : EndpointFilter) :
    w.gains ledger scope filter =
      (w.gains ledger .any filter).filter fun e => scope.accepts e.1.origin w.owner := by
  rw [w.gains_eq_filter_shows ledger scope filter, w.gains_eq_filter_shows ledger .any filter,
    List.filter_filter]
  apply List.filter_congr
  intro e _
  rw [shows_eq, Bool.and_comm]

theorem toList_diff (scope : ThreadScope) (filter : EndpointFilter) (detail : Detail) :
    (w.diff ledger scope filter detail).toList =
      Roll.ofList ((w.gains ledger scope filter).map fun e => (e.1.coarsen detail, e.2)) :=
  Summary.toList_ofList _

-- Grouping does not change a total.
theorem total_diff (scope : ThreadScope) (filter : EndpointFilter) (detail : Detail) :
    (w.diff ledger scope filter detail).total =
      Tally.sum ((w.gains ledger scope filter).map (·.2)) := by
  rw [diff, Summary.total_ofList, List.map_map]
  rfl

theorem totals_any (filter : EndpointFilter) :
    w.totals ledger .any filter = Tally.sum ((w.gains ledger .any filter).map (·.2)) :=
  w.total_diff ledger .any filter .endpointOnly

theorem totals_current (filter : EndpointFilter) :
    w.totals ledger .current filter = Tally.sum ((w.gains ledger .current filter).map (·.2)) :=
  w.total_diff ledger .current filter .endpointOnly

theorem totals_others (filter : EndpointFilter) :
    w.totals ledger .others filter =
      w.totals ledger .any filter - w.totals ledger .current filter :=
  rfl

theorem read_totals_current_le (filter : EndpointFilter) (c : Tally.Counter) :
    (w.totals ledger .current filter).read c ≤ (w.totals ledger .any filter).read c := by
  have hsub : ((w.gains ledger .current filter).map (·.2)).Sublist
      ((w.gains ledger .any filter).map (·.2)) := by
    rw [w.gains_eq_filter ledger .current filter]
    exact List.filter_sublist.map _
  have hle := Tally.readSum_sublist_le c hsub
  rw [totals_any, totals_current, Tally.read_sum, Tally.read_sum]
  omega

-- Where nothing is recorded, nothing is counted, whatever the window began with.
theorem gains_of_keeps_nil {ledger : Ledger} (h : ledger.Keeps []) (scope : ThreadScope)
    (filter : EndpointFilter) : w.gains ledger scope filter = [] := by
  rw [gains_eq, h.roll_eq]
  rfl

theorem totals_of_keeps_nil {ledger : Ledger} (h : ledger.Keeps []) (scope : ThreadScope)
    (filter : EndpointFilter) : w.totals ledger scope filter = 0 := by
  have hany : w.totals ledger .any filter = 0 := by
    rw [totals_any, w.gains_of_keeps_nil h]
    rfl
  have hcurrent : w.totals ledger .current filter = 0 := by
    rw [totals_current, w.gains_of_keeps_nil h]
    rfl
  cases scope with
  | any => exact hany
  | current => exact hcurrent
  | others =>
      rw [totals_others, hany, hcurrent]
      rfl

-- Every call is the owner's or another thread's, and the totals show it exactly: the
-- owner's share never exceeds the whole, so that nothing is cut off when it is taken away.
theorem totals_current_add_others (filter : EndpointFilter) (c : Tally.Counter) :
    (w.totals ledger .current filter).read c ≤ (w.totals ledger .any filter).read c ∧
      (w.totals ledger .current filter).read c + (w.totals ledger .others filter).read c =
        (w.totals ledger .any filter).read c ∧
      (w.totals ledger .current filter).read c + (w.totals ledger .others filter).read c ≤
        Count.limit := by
  have hle := w.read_totals_current_le ledger filter c
  have hlimit := (w.totals ledger .any filter).read_le_limit c
  rw [totals_others, Tally.read_sub]
  refine ⟨hle, ?_, ?_⟩ <;> omega

end CallWatch.Window

import CallWatch.Proofs.Window.Shares
import Mathlib.Algebra.BigOperators.Group.List.Basic

namespace CallWatch

-- Filters that share out what another one accepts: each of its endpoints falls to exactly
-- one of them, and no other endpoint to any.
def EndpointFilter.SharedBy (filter : EndpointFilter) (parts : List EndpointFilter) : Prop :=
  ∀ endpoint, parts.countP (·.accepts endpoint) = if filter.accepts endpoint then 1 else 0

-- The filters that differ from one another in the kind of statement only.
def EndpointFilter.ofKinds (text : TextPattern) : List EndpointFilter :=
  Statement.Kind.all.map fun kind => .statements (some kind) text

theorem EndpointFilter.every_sharedBy : every.SharedBy [anySocket, anyStatement] := by
  intro endpoint
  cases endpoint <;> rfl

theorem EndpointFilter.statements_sharedBy (text : TextPattern) :
    (statements none text).SharedBy (ofKinds text) := by
  intro endpoint
  cases endpoint with
  | socket s => rfl
  | statement s =>
      obtain ⟨sql, kind⟩ := s
      cases hsql : text.accepts sql <;> cases kind <;>
        simp [ofKinds, Statement.Kind.all, accepts, hsql]

theorem Tally.add_zero (a : Tally) : a + 0 = a := by
  apply ext_read
  intro c
  have h := a.read_le_limit c
  rw [read_add, read_zero]
  omega

theorem Tally.sum_append (ts us : List Tally) : sum (ts ++ us) = sum ts + sum us := by
  apply ext_read
  intro c
  rw [read_sum, readSum_append, read_add, read_sum, read_sum]
  omega

theorem Tally.sum_map_sum (ts : List (List Tally)) : sum (ts.map sum) = sum ts.flatten := by
  induction ts with
  | nil => rfl
  | cons t rest ih => rw [List.map_cons, sum_cons, ih, List.flatten_cons, sum_append]

section

variable {α : Type} [DecidableEq α]

theorem count_filter_eq (p : α → Bool) (xs : List α) (a : α) :
    (xs.filter p).count a = if p a then xs.count a else 0 := by
  by_cases h : p a
  · rw [if_pos h, List.count_filter h]
  · rw [if_neg h, List.count_eq_zero]
    exact fun hmem => h (List.mem_filter.mp hmem).2

-- Predicates of which exactly one holds where another one does take apart what it lets
-- through.
theorem flatten_map_filter_perm {ps : List (α → Bool)} {q : α → Bool}
    (h : ∀ a, ps.countP (· a) = if q a then 1 else 0) (xs : List α) :
    (ps.map xs.filter).flatten.Perm (xs.filter q) := by
  rw [List.perm_iff_count]
  intro a
  have hsum (l : List (α → Bool)) :
      (l.map fun p => (xs.filter p).count a).sum = l.countP (· a) * xs.count a := by
    induction l with
    | nil => simp
    | cons p rest ih =>
        rw [List.map_cons, List.sum_cons, ih, List.countP_cons, count_filter_eq, Nat.add_mul]
        split <;> omega
  rw [List.count_flatten, List.map_map, Function.comp_def, hsum, h, count_filter_eq]
  split <;> omega

end

namespace Window

variable (w : Window) (ledger : Ledger)

theorem gains_eq_filter_accepts (scope : ThreadScope) (filter : EndpointFilter) :
    w.gains ledger scope filter =
      (w.gains ledger scope .every).filter (filter.accepts ·.1.endpoint) := by
  rw [w.gains_eq_filter_shows ledger scope filter, w.gains_eq_filter_shows ledger scope .every,
    List.filter_filter]
  rfl

variable {w ledger}

-- What adds up for all endpoints does so for some of them.
theorem AddsUp.of_every (h : w.AddsUp ledger .every) (filter : EndpointFilter) :
    w.AddsUp ledger filter := by
  intro c
  have hevery := h c
  have hsub : ((w.gains ledger .any filter).map (·.2)).Sublist
      ((w.gains ledger .any .every).map (·.2)) := by
    rw [w.gains_eq_filter_accepts ledger .any filter]
    exact List.filter_sublist.map _
  rw [toList_diff_full] at hevery ⊢
  exact Nat.le_trans (Tally.readSum_sublist_le c hsub) hevery

theorem totals_eq_sum_gains {scope : ThreadScope} {filter : EndpointFilter}
    (h : scope = .others → w.AddsUp ledger filter) :
    w.totals ledger scope filter = Tally.sum ((w.gains ledger scope filter).map (·.2)) :=
  (totals_eq_total_diff h .full).trans (w.total_diff ledger scope filter .full)

-- Every gain is counted by exactly one of the filters that share it out.
theorem totals_eq_sum_totals {scope : ThreadScope} (h : scope = .others → w.AddsUp ledger .every)
    {filter : EndpointFilter} {parts : List EndpointFilter} (hparts : filter.SharedBy parts) :
    w.totals ledger scope filter = Tally.sum (parts.map (w.totals ledger scope)) := by
  let accepted (part : EndpointFilter) : List (Key × Tally) :=
    (w.gains ledger scope .every).filter (part.accepts ·.1.endpoint)
  have htotal (part : EndpointFilter) :
      w.totals ledger scope part = Tally.sum ((accepted part).map (·.2)) := by
    rw [totals_eq_sum_gains fun hothers => (h hothers).of_every part, gains_eq_filter_accepts]
  have hcount (e : Key × Tally) :
      (parts.map fun part e => part.accepts e.1.endpoint).countP (· e) =
        if filter.accepts e.1.endpoint then 1 else 0 := by
    rw [List.countP_map]
    exact hparts e.1.endpoint
  have hperm : (parts.map accepted).flatten.Perm (accepted filter) := by
    have hperm := flatten_map_filter_perm hcount (w.gains ledger scope .every)
    rwa [List.map_map] at hperm
  calc w.totals ledger scope filter
    _ = Tally.sum ((accepted filter).map (·.2)) := htotal filter
    _ = Tally.sum ((parts.map accepted).flatten.map (·.2)) := (Tally.sum_perm (hperm.map _)).symm
    _ = Tally.sum (parts.map fun part => Tally.sum ((accepted part).map (·.2))) := by
        rw [List.map_flatten, ← Tally.sum_map_sum, List.map_map, List.map_map]
        rfl
    _ = Tally.sum (parts.map (w.totals ledger scope)) := by simp only [← htotal]

end Window

namespace Session

-- The totals of all endpoints are those of sockets and of statements, and the totals of
-- statements without a kind are those of the six kinds. The share of the other threads
-- needs counters that were not cut off.
theorem totals_shared_by_kinds {s : Session} {name : String} {number : Nat} {w : Watched}
    (hw : s.guardedWindow? name = some (number, w)) (hopen : w.window.closedAt = none)
    (scope : ThreadScope)
    (h : scope = .others → w.window.AddsUp (s.ledgerOf w.source) .every) :
    ∃ total : EndpointFilter → Tally,
      (∀ filter,
        (s.perform (.watching name (.totals scope filter))).2.1 = .total (total filter)) ∧
      total .every = total .anySocket + total .anyStatement ∧
      ∀ text, total (.statements none text) =
        Tally.sum (Statement.Kind.all.map fun kind => total (.statements (some kind) text)) := by
  refine ⟨w.window.totals (s.ledgerOf w.source) scope, fun filter => ?_, ?_, fun text => ?_⟩
  · rw [reply_watching hw, watch, Window.whenOpen, hopen]
    rfl
  · rw [Window.totals_eq_sum_totals h EndpointFilter.every_sharedBy, List.map_cons,
      List.map_singleton, Tally.sum_cons, Tally.sum_cons]
    exact congrArg _ (Tally.add_zero _)
  · rw [Window.totals_eq_sum_totals h (EndpointFilter.statements_sharedBy text),
      EndpointFilter.ofKinds, List.map_map]
    rfl

-- Another thread's transfer and two of its statements, seen from the owner's window.
theorem totals_shared_by_kinds_elsewhere :
    let origin : Origin := ⟨some ⟨8, none, none⟩, none⟩
    let transfer : Key := ⟨.socket ⟨"db", 5432, 1, none⟩, origin⟩
    let select : Key := ⟨.statement ⟨"select 1", .select⟩, origin⟩
    let merge : Key := ⟨.statement ⟨"merge into t", .merge⟩, origin⟩
    let opened := ((start .standard none none).perform (.openWindow "spy" 7 none)).1
    let sent := (opened.perform (.recording (.record transfer (.sent (.clamp 3))))).1
    let selected := (sent.perform (.recording (.record select (.statement 0 (.clamp 2))))).1
    let s := (selected.perform (.recording (.record merge (.statement 0 (.clamp 5))))).1
    ∃ total : EndpointFilter → Tally,
      (∀ filter,
        (s.perform (.watching "spy" (.totals .others filter))).2.1 = .total (total filter)) ∧
      total .every = total .anySocket + total .anyStatement ∧
      ∀ text, total (.statements none text) =
        Tally.sum (Statement.Kind.all.map fun kind => total (.statements (some kind) text)) := by
  intro origin transfer select merge opened sent selected s
  let later := [(transfer, Tally.sent (.clamp 3)), (select, .statement 0 (.clamp 2)),
    (merge, .statement 0 (.clamp 5))]
  have h : Reached s [.opened 0 7 .tap, .changed .tap (.record transfer (.sent (.clamp 3))),
      .changed .tap (.record select (.statement 0 (.clamp 2))),
      .changed .tap (.record merge (.statement 0 (.clamp 5)))] :=
    .act (.act (.act (.act (.start .standard none none) _) _) _) _
  let w : Watched := ⟨.openOn .standard 7 ((start .standard none none).ledgerOf .side)
    (start .standard none none).tap.traffic, .side⟩
  have hw : s.guardedWindow? "spy" = some (0, w) := rfl
  have hledger : (s.ledgerOf w.source).Keeps ([] ++ later) := h.follows.ledger w.source
  have hgains := Window.gains_eq_observed hledger (h.follows.recalls 0 w rfl) .any .every
  have haddsUp : w.window.AddsUp (s.ledgerOf w.source) .every := by
    intro c
    rw [Window.toList_diff_full, hgains]
    cases c <;> decide
  exact totals_shared_by_kinds hw rfl .others fun _ => haddsUp

end Session

end CallWatch

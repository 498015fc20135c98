import CallWatch.Proofs.Window.Observed

namespace CallWatch

namespace Window

-- Whether the older recordings are still in the ledger or were cleared from it, what they
-- came to covers all of the excess over the later ones.
theorem read_sub_sum_le {amounts old later : List (Key × Tally)}
    (h : amounts = old ++ later ∨ amounts = later) (key : Key) (c : Tally.Counter) :
    (Tally.sum (Key.valuesOf key amounts) - Tally.sum (Key.valuesOf key old)).read c ≤
      Tally.readSum c (Key.valuesOf key later) := by
  rw [Tally.read_sub, Tally.read_sum, Tally.read_sum]
  rcases h with rfl | rfl
  · rw [Key.valuesOf_append, Tally.readSum_append]
    omega
  · omega

variable {w : Window} {ledger : Ledger} {amounts old later : List (Key × Tally)}
  {captured : List (Key × Packet)}

theorem distinct_gains (w : Window) (ledger : Ledger) (scope : ThreadScope)
    (filter : EndpointFilter) : Key.Distinct (w.gains ledger scope filter) := by
  have hshown := (Roll.distinct_ofList ledger.roll).filter fun e => w.shows scope filter e.1
  have hgains : Key.Distinct (((Roll.ofList ledger.roll).filter (w.shows scope filter ·.1)).map
      fun e => (e.1, w.gain e.1 e.2)) := by
    rw [Key.Distinct, List.map_map]
    exact hshown
  rw [gains_eq]
  exact hgains.filter _

theorem read_gains_le (hledger : ledger.Keeps amounts) (hw : w.Recalls old captured)
    (h : amounts = old ++ later ∨ amounts = later) {scope : ThreadScope}
    {filter : EndpointFilter} {e : Key × Tally} (he : e ∈ w.gains ledger scope filter) :
    w.shows scope filter e.1 ∧
      ∀ c, e.2.read c ≤ Tally.readSum c (Key.valuesOf e.1 later) := by
  rw [gains_eq_map hledger hw] at he
  obtain ⟨key, hkey, rfl⟩ := List.mem_map.mp (List.mem_filter.mp he).1
  exact ⟨(List.mem_filter.mp hkey).2, read_sub_sum_le h key⟩

-- Grouping adds up gains of different keys, so that a group is within what was recorded
-- later for all of its keys that are shown.
theorem read_diff_le (hledger : ledger.Keeps amounts) (hw : w.Recalls old captured)
    (h : amounts = old ++ later ∨ amounts = later) (scope : ThreadScope)
    (filter : EndpointFilter) (detail : Detail) {e : Key × Tally}
    (he : e ∈ (w.diff ledger scope filter detail).toList) (c : Tally.Counter) :
    e.2.read c ≤ Tally.readSum c ((later.filter fun a =>
      a.1.coarsen detail == e.1 && w.shows scope filter a.1).map (·.2)) := by
  rw [toList_diff, Roll.ofList_eq] at he
  obtain ⟨key, -, rfl⟩ := List.mem_map.mp he
  let inGroup (other : Key) : Bool := other.coarsen detail == key && w.shows scope filter other
  have hgroup : Key.Respects inGroup := by
    intro a b hab
    have hcoarsen := BEq.congr_left (c := key) (Key.coarsen_congr hab detail)
    have hshows := w.respects_shows scope filter a b hab
    simp only [inGroup, hcoarsen, hshows]
  let group := (w.gains ledger scope filter).filter fun g => g.1.coarsen detail == key
  have hvalues : Key.valuesOf key ((w.gains ledger scope filter).map
      fun g => (g.1.coarsen detail, g.2)) = group.map (·.2) := by
    rw [Key.valuesOf, List.filter_map, List.map_map]
    rfl
  have hwithin : ∀ g ∈ group, g.2.read c ≤
      Tally.readSum c (Key.valuesOf g.1 (later.filter fun a => inGroup a.1)) := by
    intro g hg
    obtain ⟨hgain, hkey⟩ := List.mem_filter.mp hg
    obtain ⟨hshown, hle⟩ := read_gains_le hledger hw h hgain
    have hin : inGroup g.1 := by
      simp only [inGroup, hkey, hshown, Bool.and_self]
    rw [Key.valuesOf_filter hgroup hin]
    exact hle c
  have hsum := Roll.readSum_le_of_distinct c ((w.distinct_gains ledger scope filter).filter _)
    hwithin
  rw [hvalues, Tally.read_sum]
  exact Nat.le_trans (Nat.min_le_left _ _) hsum

end Window

namespace Session

variable {s : Session} {history : List Deed}

-- No matter when what was cleared, an open window shows nothing from before it began and
-- nothing from before the last clearing of what it looks at: amounts are within those
-- recorded since, and packets are made of captures made since, none of them used twice.
theorem shown_of_since (h : Reached s history) {name : String} {number : Nat} {w : Watched}
    (hw : s.guardedWindow? name = some (number, w)) (hopen : w.window.closedAt = none)
    (scope : ThreadScope) (filter : EndpointFilter) (detail : Detail) :
    ∃ owner source, openings number history = [(owner, source)] ∧
      let shows (key : Key) : Bool := filter.accepts key.endpoint && scope.accepts key.origin owner
      (∃ d, (s.perform (.watching name (.diff scope filter detail))).2.1 = .summary d ∧
        ∀ e ∈ d.toList, ∀ c, e.2.read c ≤
          Tally.readSum c (((recordings source (since number history)).filter fun a =>
            a.1.coarsen detail == e.1 && shows a.1).map (·.2))) ∧
      ∃ streams runs,
        (s.perform (.watching name (.packets scope filter detail))).2.1 = .streams streams ∧
          runs.flatten.Subperm (captures (since number history)) ∧
          List.Forall₂ (Traffic.ShownFor shows detail) runs (Traffic.shown streams) := by
  have hfollows := h.follows
  have hrecalls := hfollows.recalls number w (s.guardedWindow?_eq_some_iff.mp hw).2
  refine ⟨w.window.owner, s.place w.source, hfollows.openings_eq hw, ?_, ?_⟩
  · refine ⟨w.window.diff (s.ledgerOf w.source) scope filter detail, ?_, ?_⟩
    · rw [reply_watching hw, watch, Window.whenOpen, hopen]
      rfl
    · intro e he c
      exact Window.read_diff_le (hfollows.ledger w.source) hrecalls (recordings_eq _ number history)
        scope filter detail he c
  · have hshows := w.window.respects_shows scope filter
    obtain ⟨runs, hsub, hshown⟩ := Traffic.exists_runs_packets hfollows.traffic hrecalls.countOf
      (captures_eq number history) hshows detail w.window.mergeWithin
    refine ⟨w.window.packets s.tap.traffic scope filter detail, runs, ?_, hsub, hshown⟩
    rw [reply_watching hw, watch, Window.whenOpen, hopen]
    rfl

-- A transfer from before a reset is not shown, though the window began before it.
theorem shown_of_since_after_reset :
    let socket : Socket := ⟨"db", 5432, 1, none⟩
    let origin : Origin := ⟨some ⟨7, none, none⟩, none⟩
    let config := { Config.standard with captureTraffic := true }
    let opened := ((start config none none).perform (.openWindow "spy" 7 none)).1
    let used := (opened.perform (.recording (.transfer socket origin .sent 0 [1, 2]))).1
    let reset := (used.perform (.recording .resetTap)).1
    let s := (reset.perform (.recording (.transfer socket origin .sent 1 [3]))).1
    (∃ d, (s.perform (.watching "spy" (.diff .any .every .full))).2.1 = .summary d ∧
      ∀ e ∈ d.toList, e.2.read .bytesUp ≤ 1) ∧
    ∃ streams runs,
      (s.perform (.watching "spy" (.packets .any .every .full))).2.1 = .streams streams ∧
        runs.flatten.Subperm [(⟨.socket socket, origin⟩, Packet.single .sent 1 [3])] ∧
        List.Forall₂ (Traffic.ShownFor (fun _ => true) .full) runs (Traffic.shown streams) := by
  intro socket origin config opened used reset s
  have h : Reached s [.opened 0 7 .tap,
      .changed .tap (.record ⟨.socket socket, origin⟩ (Tap.transferTally .sent 2)),
      .captured ⟨.socket socket, origin⟩ (.single .sent 0 [1, 2]), .changed .tap .clear, .forgot,
      .changed .tap (.record ⟨.socket socket, origin⟩ (Tap.transferTally .sent 1)),
      .captured ⟨.socket socket, origin⟩ (.single .sent 1 [3])] :=
    .act (.act (.act (.act (.start config none none) _) _) _) _
  have hw : s.guardedWindow? "spy" = some (0, ⟨.openOn config 7
      ((start config none none).ledgerOf .side) (start config none none).tap.traffic, .side⟩) := rfl
  obtain ⟨owner, source, hopening, ⟨d, hreply, hle⟩, streams, runs, hpackets, hsub, hshown⟩ :=
    shown_of_since h hw rfl .any .every .full
  have hopened : [(7, Source.tap)] = [(owner, source)] := hopening
  obtain ⟨rfl, rfl⟩ : 7 = owner ∧ Source.tap = source := by simpa using hopened
  refine ⟨⟨d, hreply, fun e he => ?_⟩, streams, runs, hpackets, hsub, hshown⟩
  refine (hle e he .bytesUp).trans ?_
  exact (Tally.readSum_sublist_le .bytesUp (List.filter_sublist.map Prod.snd)).trans (by decide)

end Session

end CallWatch

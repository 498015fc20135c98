import CallWatch.Proofs.Session.Recall
import CallWatch.Proofs.Window.Gains

namespace CallWatch

namespace Window

-- What a key gains by later recordings on top of older ones: all of it, for as long as
-- its counters can still grow.
def gained (old later : List (Key × Tally)) (key : Key) : Tally :=
  .ofReads fun c =>
    min (Tally.readSum c (Key.valuesOf key later))
      (Count.limit - min (Tally.readSum c (Key.valuesOf key old)) Count.limit)

-- The keys that gained anything and are asked for, in the order of their first recording.
def observed (old later : List (Key × Tally)) (owner : Nat) (scope : ThreadScope)
    (filter : EndpointFilter) : List Key :=
  (Key.firsts ((old ++ later).map (·.1))).filter fun key =>
    !(gained old later key).isZero &&
      (filter.accepts key.endpoint && scope.accepts key.origin owner)

-- Saturating up and then down again loses only what was beyond the limit.
theorem sub_eq_gained (old later : List (Key × Tally)) (key : Key) :
    Tally.sum (Key.valuesOf key (old ++ later)) - Tally.sum (Key.valuesOf key old) =
      gained old later key := by
  apply Tally.ext_read
  intro c
  rw [Tally.read_sub, Tally.read_sum, Tally.read_sum, Key.valuesOf_append, Tally.readSum_append,
    gained, Tally.read_ofReads]
  omega

variable {w : Window} {old : List (Key × Tally)} {captured : List (Key × Packet)}

theorem gain_eq (hw : w.Recalls old captured) (key : Key) (now : Tally) :
    w.gain key now = now - Tally.sum (Key.valuesOf key old) := by
  rw [gain, Summary.get?_eq hw.valid, hw.calls_eq, Roll.lookup_ofList]
  by_cases hk : old.any (·.1 == key)
  · rw [if_pos hk]
  · have hnone := Key.valuesOf_eq_nil (Bool.of_not_eq_true hk)
    rw [if_neg hk, hnone]
    exact now.sub_zero.symm

-- What a window shows, in terms of the recordings that its ledger holds and those it
-- held when the window began.
theorem gains_eq_map {ledger : Ledger} {amounts : List (Key × Tally)}
    (hledger : ledger.Keeps amounts) (hw : w.Recalls old captured) (scope : ThreadScope)
    (filter : EndpointFilter) :
    w.gains ledger scope filter =
      (((Key.firsts (amounts.map (·.1))).filter (w.shows scope filter)).map fun key =>
        (key, Tally.sum (Key.valuesOf key amounts) - Tally.sum (Key.valuesOf key old))).filter
          fun e => !e.2.isZero := by
  have hroll : Roll.ofList ledger.roll = Roll.ofList amounts := by
    rw [hledger.roll_eq]
    exact Key.collect_eq_self _ (Roll.distinct_ofList amounts)
  simp only [gains_eq, hroll, Roll.ofList_eq, gain_eq hw, List.filter_map, List.map_map]
  rfl

theorem gains_eq_observed {ledger : Ledger} {later : List (Key × Tally)}
    (hledger : ledger.Keeps (old ++ later)) (hw : w.Recalls old captured) (scope : ThreadScope)
    (filter : EndpointFilter) :
    w.gains ledger scope filter =
      (observed old later w.owner scope filter).map fun key => (key, gained old later key) := by
  rw [gains_eq_map hledger hw]
  simp only [sub_eq_gained]
  rw [List.filter_map, List.filter_filter]
  rfl

-- Grouping collects what the observed keys of a group gained, where the first of them is.
theorem toList_diff_eq {ledger : Ledger} {later : List (Key × Tally)}
    (hledger : ledger.Keeps (old ++ later)) (hw : w.Recalls old captured) (scope : ThreadScope)
    (filter : EndpointFilter) (detail : Detail) :
    (w.diff ledger scope filter detail).toList =
      (Key.firsts ((observed old later w.owner scope filter).map (·.coarsen detail))).map
        fun key => (key, Tally.sum (((observed old later w.owner scope filter).filter
          (·.coarsen detail == key)).map (gained old later))) := by
  rw [toList_diff, gains_eq_observed hledger hw, Roll.ofList_eq, List.map_map, List.map_map]
  apply List.map_congr_left
  intro key _
  rw [Key.valuesOf, List.filter_map, List.map_map]
  rfl

-- The totals of all threads and of the owner are read off what they gained. What is left
-- is taken for the gain of the others.
theorem totals_eq_observed {ledger : Ledger} {later : List (Key × Tally)}
    (hledger : ledger.Keeps (old ++ later)) (hw : w.Recalls old captured) (scope : ThreadScope)
    (filter : EndpointFilter) :
    w.totals ledger scope filter =
      let gain (scope : ThreadScope) :=
        Tally.sum ((observed old later w.owner scope filter).map (gained old later))
      match scope with
      | .others => gain .any - gain .current
      | scope => gain scope := by
  have hgain (scope : ThreadScope) : Tally.sum ((w.gains ledger scope filter).map (·.2)) =
      Tally.sum ((observed old later w.owner scope filter).map (gained old later)) := by
    rw [gains_eq_observed hledger hw, List.map_map]
    rfl
  cases scope with
  | any => rw [totals_any, hgain]
  | current => rw [totals_current, hgain]
  | others => rw [totals_others, totals_any, totals_current, hgain, hgain]

end Window

namespace Session

variable {s : Session} {history : List Deed}

-- An open window shows exactly what was recorded into its ledger since it began, as long
-- as the ledger was not cleared meanwhile. Nothing else that was done has any part in it.
theorem diff_eq_recorded (h : Reached s history) {name : String} {number : Nat} {w : Watched}
    (hw : s.guardedWindow? name = some (number, w)) (hopen : w.window.closedAt = none)
    (scope : ThreadScope) (filter : EndpointFilter) (detail : Detail) :
    ∃ owner source, openings number history = [(owner, source)] ∧
      (.changed source .clear ∉ since number history →
        ∃ d, (s.perform (.watching name (.diff scope filter detail))).2.1 = .summary d ∧
          let old := recordings source (before number history)
          let later := recordings source (since number history)
          let keys := Window.observed old later owner scope filter
          d.toList =
              (Key.firsts (keys.map (·.coarsen detail))).map (fun key =>
                (key, Tally.sum ((keys.filter (·.coarsen detail == key)).map
                  (Window.gained old later)))) ∧
            Key.Distinct d.toList ∧ ∀ key, d.get? key = Key.lookup d.toList key) := by
  have hfollows := h.follows
  refine ⟨w.window.owner, s.place w.source, hfollows.openings_eq hw, fun hclear => ?_⟩
  have hrecalls := hfollows.recalls number w (s.guardedWindow?_eq_some_iff.mp hw).2
  have hledger := hfollows.ledger w.source
  rw [← before_append_since number history, recordings_append, if_neg hclear] at hledger
  refine ⟨w.window.diff (s.ledgerOf w.source) scope filter detail, ?_, ?_, ?_, ?_⟩
  · rw [reply_watching hw, watch, Window.whenOpen, hopen]
    rfl
  · exact Window.toList_diff_eq hledger hrecalls scope filter detail
  · rw [Window.toList_diff]
    exact Roll.distinct_ofList _
  · exact Summary.get?_eq (Summary.valid_ofList _)

-- A call from before the window began has no part in what it shows.
theorem diff_eq_recorded_after_opening :
    let key : Key := ⟨.statement ⟨"select 1", .select⟩, ⟨some ⟨7, none, none⟩, none⟩⟩
    let three : Tally := .received (.clamp 3)
    let five : Tally := .received (.clamp 5)
    let earlier := ((start .standard none none).perform (.recording (.record key three))).1
    let opened := (earlier.perform (.openWindow "spy" 7 none)).1
    let s := (opened.perform (.recording (.record key five))).1
    ∃ d, (s.perform (.watching "spy" (.diff .current .every .full))).2.1 = .summary d ∧
      d.toList = [(key, five)] := by
  intro key three five earlier opened s
  have h : Reached s [.changed .tap (.record key three), .opened 0 7 .tap,
      .changed .tap (.record key five)] :=
    .act (.act (.act (.start .standard none none) _) _) _
  have hw : s.guardedWindow? "spy" =
      some (0, ⟨.openOn .standard 7 (earlier.ledgerOf .side) earlier.tap.traffic, .side⟩) := rfl
  obtain ⟨owner, source, hopening, hdiff⟩ :=
    diff_eq_recorded h hw rfl .current .every .full
  have hopened : [(7, Source.tap)] = [(owner, source)] := hopening
  obtain ⟨rfl, rfl⟩ : 7 = owner ∧ Source.tap = source := by simpa using hopened
  obtain ⟨d, hreply, hlist, -⟩ := hdiff (by decide)
  refine ⟨d, hreply, hlist.trans ?_⟩
  decide

end Session

end CallWatch

import CallWatch.Proofs.Key.Regroup
import CallWatch.Proofs.Ledger.Replay

namespace CallWatch

namespace Summary

-- The index of keys that come one after another, each for the first time.
def placesOf (keys : List Key) : Std.HashMap Key Nat :=
  keys.zipIdx.foldl (fun index (key, i) => index.insert key i) ∅

-- The entries of a summary, each added under a coarser key.
def regroup (s : Summary) (detail : Detail) : Summary :=
  .ofList (s.toList.map fun e => (e.1.coarsen detail, e.2))

theorem placesOf_concat (keys : List Key) (key : Key) :
    placesOf (keys ++ [key]) = (placesOf keys).insert key keys.length := by
  simp [placesOf, List.zipIdx_append]

theorem ofList_concat (amounts : List (Key × Tally)) (key : Key) (amount : Tally) :
    ofList (amounts ++ [(key, amount)]) = (ofList amounts).merge key amount := by
  simp [ofList, mergeAll]

-- A key that comes again does not touch the index.
theorem index_ofList (amounts : List (Key × Tally)) :
    (ofList amounts).index = placesOf ((Roll.ofList amounts).map (·.1)) := by
  induction amounts using List.reverseRecOn with
  | nil => rfl
  | append_singleton amounts entry ih =>
      obtain ⟨key, amount⟩ := entry
      have hplace : (ofList amounts).index[key]? = Roll.placeOf? (Roll.ofList amounts) key := by
        rw [valid_ofList amounts key, toList_ofList]
      rw [ofList_concat, merge, Roll.ofList, Key.collect_concat, ← Roll.ofList, Key.keys_upsert]
      split
      · rename_i i hi
        have hany : (Roll.ofList amounts).any (·.1 == key) := by
          by_contra hnot
          rw [hplace, Roll.placeOf?_eq_none_iff.mpr (Bool.of_not_eq_true hnot)] at hi
          cases hi
        rw [if_pos hany]
        exact ih
      · rename_i hnone
        have hany := Roll.placeOf?_eq_none_iff.mp (hplace.symm.trans hnone)
        have hsize : (ofList amounts).entries.size = (Roll.ofList amounts).length := by
          rw [← toList_ofList]
          rfl
        rw [if_neg (by rw [hany]; exact Bool.false_ne_true), placesOf_concat, List.length_map,
          ← hsize]
        exact congrArg (·.insert key (ofList amounts).entries.size) ih

-- A summary is known by its entries.
theorem ofList_congr {a b : List (Key × Tally)} (h : Roll.ofList a = Roll.ofList b) :
    ofList a = ofList b := by
  have hentries : (ofList a).entries = (ofList b).entries := by
    apply Array.toList_inj.mp
    exact (toList_ofList a).trans (h.trans (toList_ofList b).symm)
  have hindex : (ofList a).index = (ofList b).index := by
    rw [index_ofList, index_ofList, h]
  calc ofList a
    _ = ⟨(ofList a).entries, (ofList a).index⟩ := rfl
    _ = ⟨(ofList b).entries, (ofList b).index⟩ := by rw [hentries, hindex]
    _ = ofList b := rfl

theorem regroup_ofList (amounts : List (Key × Tally)) (detail : Detail) :
    (ofList amounts).regroup detail =
      ofList (amounts.map fun e => (e.1.coarsen detail, e.2)) := by
  apply ofList_congr
  rw [toList_ofList]
  exact Key.collect_map_collect Tally.add_assoc Tally.add_right_comm
    (fun h => Key.coarsen_congr h detail) amounts

end Summary

-- To group a summary again is to group its calls at once by what both groupings keep, down
-- to the keys that stand for their groups and the index. No grouping changes the total.
theorem Ledger.regroup_summary (l : Ledger) (keep : Key → Bool) (first second : Detail) :
    (l.summary keep first).regroup second = l.summary keep (first.meet second) ∧
      (l.summary keep first).total = (l.summary keep second).total := by
  constructor
  · have hkeys : ((l.entries.filter fun e => keep e.key).map fun e =>
          (e.key.coarsen first, e.amount)).map (fun e => (e.1.coarsen second, e.2)) =
        (l.entries.filter fun e => keep e.key).map fun e =>
          (e.key.coarsen (first.meet second), e.amount) := by
      rw [List.map_map]
      apply List.map_congr_left
      intro e _
      rw [Function.comp_apply, Key.coarsen_coarsen]
    rw [summary, Summary.regroup_ofList, hkeys, summary]
  · rw [summary, summary, Summary.total_ofList, Summary.total_ofList, List.map_map, List.map_map]
    rfl

-- Two connections to one address fall together under the first grouping, and what two
-- threads did on them under the second. The address was met before the statement and stays
-- in front of it. What a third thread received is left out.
theorem Ledger.regroup_summary_colliding :
    let key (endpoint : Endpoint) (thread : Option Nat) : Key :=
      ⟨endpoint, ⟨thread.map (⟨·, none, none⟩), some ⟨"main"⟩⟩⟩
    let socket (connection : Int32) : Endpoint := .socket ⟨"db", 5432, connection, none⟩
    let query : Endpoint := .statement ⟨"select 1", .select⟩
    let down (calls bytes : Nat) : Tally := ⟨.clamp calls, 0, 0, .clamp bytes, 0⟩
    let l := Ledger.empty.replay
      [.record (key (socket 1) (some 7)) (down 1 1), .record (key query (some 8)) (down 1 2),
        .record (key (socket 2) (some 7)) (down 1 4), .record (key (socket 1) (some 8)) (down 1 8),
        .record (key (socket 1) (some 9)) (down 1 16)]
    let keep (key : Key) := !key.origin.isThread 9
    let anyConnection : Detail := ⟨false, true, true⟩
    let anyThread : Detail := ⟨true, true, false⟩
    (l.summary keep anyConnection).toList =
        [(key (socket (-1)) (some 7), down 2 5), (key query (some 8), down 1 2),
          (key (socket (-1)) (some 8), down 1 8)] ∧
      ((l.summary keep anyConnection).regroup anyThread).toList =
        [(key (socket (-1)) none, down 3 13), (key query none, down 1 2)] ∧
      (l.summary keep anyConnection).total = down 4 15 ∧
      (l.summary keep anyThread).total = down 4 15 := by
  intro key socket query down l keep anyConnection anyThread
  have hroll : l.roll = Roll.ofList
      [(key (socket 1) (some 7), down 1 1), (key query (some 8), down 1 2),
        (key (socket 2) (some 7), down 1 4), (key (socket 1) (some 8), down 1 8),
        (key (socket 1) (some 9), down 1 16)] :=
    ((keeps_withPlacement _ _).replay _).roll_eq
  obtain ⟨hregroup, htotal⟩ := l.regroup_summary keep anyConnection anyThread
  have hlines := l.toList_summary keep anyConnection
  have hregrouped := l.toList_summary keep (anyConnection.meet anyThread)
  rw [hroll] at hlines hregrouped
  rw [← hregroup] at hregrouped
  rw [← htotal, Summary.total, hlines, hregrouped]
  decide

end CallWatch

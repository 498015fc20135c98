import CallWatch.Proofs.Key.Collect
import CallWatch.Proofs.Packet.Runs
import CallWatch.Traffic
import Mathlib.Data.List.Forall2

namespace CallWatch.Traffic

-- Streams as a plain list of keys and packets.
def pairs (streams : List Stream) : List (Key × List Packet) :=
  streams.map fun s => (s.key, s.packets)

-- The streams that captures make: the packets of each key in the order they came.
def collected (captures : List (Key × Packet)) : List (Key × List Packet) :=
  Key.collect (· ++ ·) (captures.map fun e => (e.1, [e.2]))

def Holds (t : Traffic) (captures : List (Key × Packet)) : Prop :=
  pairs t.streams = collected captures

-- Every packet that streams show, with the key it is shown under.
def shown (streams : List Stream) : List (Key × Packet) :=
  streams.flatMap fun s => s.packets.map (s.key, ·)

theorem pairs_append (key : Key) (packets : List Packet) (streams : List Stream) :
    pairs (append key packets streams) = Key.upsert (· ++ ·) key packets (pairs streams) := by
  induction streams with
  | nil => rfl
  | cons s rest ih =>
      have hcons (first : Stream) (l : List Stream) :
          pairs (first :: l) = (first.key, first.packets) :: pairs l := rfl
      rw [append, hcons, Key.upsert]
      split
      · exact hcons _ _
      · rw [hcons, ih]

theorem holds_empty : empty.Holds [] := rfl

theorem Holds.append {t : Traffic} {captures : List (Key × Packet)} (h : t.Holds captures)
    (key : Key) (packet : Packet) :
    Holds ⟨append key [packet] t.streams⟩ (captures ++ [(key, packet)]) := by
  rw [Holds, pairs_append, h, collected, collected, List.map_append, List.map_singleton,
    Key.collect_concat]

theorem foldl_append (lists : List (List Packet)) (start : List Packet) :
    lists.foldl (· ++ ·) start = start ++ lists.flatten := by
  induction lists generalizing start with
  | nil => exact (List.append_nil start).symm
  | cons packets rest ih => rw [List.foldl_cons, ih, List.append_assoc, List.flatten_cons]

theorem valuesOf_singletons (captures : List (Key × Packet)) (key : Key) :
    (Key.valuesOf key (captures.map fun e => (e.1, [e.2]))).foldl (· ++ ·) [] =
      Key.valuesOf key captures := by
  have hvalues : Key.valuesOf key (captures.map fun e => (e.1, [e.2])) =
      (Key.valuesOf key captures).map fun p => [p] := by
    rw [Key.valuesOf, List.filter_map, List.map_map, Key.valuesOf, List.map_map]
    rfl
  rw [hvalues, foldl_append, List.nil_append, ← List.flatMap_def, List.flatMap_singleton']

theorem collected_eq (captures : List (Key × Packet)) :
    collected captures =
      (Key.firsts (captures.map (·.1))).map fun key => (key, Key.valuesOf key captures) := by
  have hkeys : (captures.map fun e => (e.1, [e.2])).map (·.1) = captures.map (·.1) := by
    rw [List.map_map]
    rfl
  rw [collected, Key.collect_eq _ List.nil_append, hkeys]
  simp only [valuesOf_singletons]

theorem lookup_collected (captures : List (Key × Packet)) (key : Key) :
    Key.lookup (collected captures) key =
      if captures.any (·.1 == key) then some (Key.valuesOf key captures) else none := by
  rw [collected, Key.lookup_collect _ List.nil_append, valuesOf_singletons, List.any_map]
  rfl

theorem countOf_eq (marks : Marks) (key : Key) :
    marks.countOf key = (Key.lookup marks key).getD 0 := by
  rw [Marks.countOf, Key.lookup]
  cases marks.find? (·.1 == key) <;> rfl

-- A mark counts the packets of its key.
theorem Holds.countOf_marks {t : Traffic} {captures : List (Key × Packet)} (h : t.Holds captures)
    (key : Key) : t.marks.countOf key = (Key.valuesOf key captures).length := by
  have hmarks : t.marks = (collected captures).map fun e => (e.1, e.2.length) := by
    rw [← h, pairs, List.map_map]
    rfl
  have hlookup : Key.lookup t.marks key =
      (Key.lookup (collected captures) key).map List.length := by
    rw [hmarks, Key.lookup, List.find?_map, Option.map_map, Key.lookup, Option.map_map]
    rfl
  rw [countOf_eq, hlookup, lookup_collected]
  split
  · rfl
  · rename_i hnone
    rw [Key.valuesOf_eq_nil (Bool.of_not_eq_true hnone)]
    rfl

theorem pairs_group (detail : Detail) (streams : List Stream) :
    pairs (group detail streams) =
      Key.collect (· ++ ·) ((pairs streams).map fun e => (e.1.coarsen detail, e.2)) := by
  induction streams using List.reverseRecOn with
  | nil => rfl
  | append_singleton streams s ih =>
      have hconcat : pairs (streams ++ [s]) = pairs streams ++ [(s.key, s.packets)] :=
        List.map_append
      rw [group, List.foldl_append, List.foldl_cons, List.foldl_nil, pairs_append, ← group, ih,
        hconcat, List.map_append, List.map_singleton, Key.collect_concat]

theorem pairs_fresh (t : Traffic) (keep : Key → Bool) (since : Marks) :
    pairs (t.fresh keep since) =
      (((pairs t.streams).filter (keep ·.1)).map
        fun e => (e.1, e.2.drop (since.countOf e.1))).filter fun e => !e.2.isEmpty := by
  simp only [pairs, fresh, List.filter_map, List.map_map]
  rfl

-- The captures of each of some keys, without the ones to skip. Keys that have no more
-- are left out.
def parts (keys : List Key) (skipped : Key → Nat) (captures : List (Key × Packet)) :
    List (Key × List (Key × Packet)) :=
  (keys.map fun key => (key, (captures.filter (·.1 == key)).drop (skipped key))).filter
    fun part => !part.2.isEmpty

theorem mem_parts {keys : List Key} {skipped : Key → Nat} {captures : List (Key × Packet)}
    {part : Key × List (Key × Packet)} (h : part ∈ parts keys skipped captures) :
    part.1 ∈ keys ∧ part.2.Sublist (captures.filter (·.1 == part.1)) := by
  obtain ⟨key, hkey, rfl⟩ := List.mem_map.mp (List.mem_filter.mp h).1
  exact ⟨hkey, List.drop_sublist _ _⟩

theorem distinct_parts {keys : List Key} (h : (keys.map Key.identity).Nodup)
    (skipped : Key → Nat) (captures : List (Key × Packet)) :
    Key.Distinct (parts keys skipped captures) := by
  have hall : Key.Distinct (keys.map fun key =>
      (key, (captures.filter (·.1 == key)).drop (skipped key))) := by
    rw [Key.Distinct, List.map_map]
    exact h
  exact hall.filter _

-- As long as nothing was forgotten, what the marks skip is what they counted.
theorem drop_countOf_append {old : List (Key × Packet)} {marks : Marks}
    (hmarks : ∀ key, marks.countOf key = (Key.valuesOf key old).length)
    (later : List (Key × Packet)) (key : Key) :
    (Key.valuesOf key (old ++ later)).drop (marks.countOf key) = Key.valuesOf key later := by
  rw [hmarks, Key.valuesOf_append, List.drop_left]

-- What is fresh of a key, given what was captured up to the marks and what was captured
-- later: either its packets are the old ones and then the later ones, or the old ones are
-- forgotten and its mark skips some of the later ones.
theorem drop_countOf {captures old later : List (Key × Packet)} {marks : Marks}
    (hmarks : ∀ key, marks.countOf key = (Key.valuesOf key old).length)
    (hcaptures : captures = old ++ later ∨ captures = later) :
    ∃ skipped : Key → Nat, ∀ key, (Key.valuesOf key captures).drop (marks.countOf key) =
      ((later.filter (·.1 == key)).drop (skipped key)).map (·.2) := by
  rcases hcaptures with rfl | rfl
  · refine ⟨fun _ => 0, fun key => ?_⟩
    rw [drop_countOf_append hmarks, List.drop_zero, Key.valuesOf]
  · refine ⟨marks.countOf, fun key => ?_⟩
    rw [List.map_drop, Key.valuesOf]

theorem pairs_fresh_eq {t : Traffic} {captures later : List (Key × Packet)} {marks : Marks}
    (h : t.Holds captures) {skipped : Key → Nat}
    (hskipped : ∀ key, (Key.valuesOf key captures).drop (marks.countOf key) =
      ((later.filter (·.1 == key)).drop (skipped key)).map (·.2)) (keep : Key → Bool) :
    pairs (t.fresh keep marks) =
      (parts ((Key.firsts (captures.map (·.1))).filter keep) skipped later).map
        fun part => (part.1, part.2.map (·.2)) := by
  have hpairs : pairs t.streams = collected captures := h
  have hdrop : ((collected captures).filter (keep ·.1)).map
        (fun e => (e.1, e.2.drop (marks.countOf e.1))) =
      (((Key.firsts (captures.map (·.1))).filter keep).map fun key =>
        (key, (later.filter (·.1 == key)).drop (skipped key))).map
          fun part => (part.1, part.2.map (·.2)) := by
    rw [collected_eq, List.filter_map, List.map_map, List.map_map]
    apply List.map_congr_left
    intro key _
    exact congrArg (Prod.mk key) (hskipped key)
  have hempty : ((fun e : Key × List Packet => !e.2.isEmpty) ∘
      fun part : Key × List (Key × Packet) => (part.1, part.2.map (·.2))) =
        fun part => !part.2.isEmpty := by
    funext part
    rw [Function.comp_apply, List.isEmpty_map]
  rw [pairs_fresh, hpairs, hdrop, List.filter_map, hempty, parts]

-- Every stream that is shown comes from a part of the later captures, and no capture is
-- in two parts.
theorem exists_parts {t : Traffic} {captures old later : List (Key × Packet)} {marks : Marks}
    (h : t.Holds captures)
    (hmarks : ∀ key, marks.countOf key = (Key.valuesOf key old).length)
    (hcaptures : captures = old ++ later ∨ captures = later) {keep : Key → Bool}
    (hkeep : Key.Respects keep) (detail : Detail) :
    ∃ grouped : List (Key × List (Key × Packet)),
      pairs (group detail (t.fresh keep marks)) =
          grouped.map (fun part => (part.1, part.2.map (·.2))) ∧
        (grouped.map (·.2)).flatten.Subperm later ∧
        ∀ part ∈ grouped, ∀ e ∈ part.2, keep e.1 ∧ e.1.coarsen detail == part.1 := by
  obtain ⟨skipped, hskipped⟩ := drop_countOf hmarks hcaptures
  let keys := (Key.firsts (captures.map (·.1))).filter keep
  let fresh := (parts keys skipped later).map fun part => (part.1.coarsen detail, part.2)
  refine ⟨Key.collect (· ++ ·) fresh, ?_, ?_, ?_⟩
  · have hmap (a b : List (Key × Packet)) : (a ++ b).map (·.2) = a.map (·.2) ++ b.map (·.2) :=
      List.map_append
    rw [pairs_group, pairs_fresh_eq h hskipped, ← Key.collect_map _ _ _ hmap, List.map_map,
      List.map_map]
    rfl
  · have hkeys : keys.Sublist (Key.firsts (captures.map (·.1))) := List.filter_sublist
    have hnodup := (Key.nodup_firsts (captures.map (·.1))).sublist (hkeys.map Key.identity)
    have hperm := Key.flatten_collect_perm fresh
    rw [List.map_map] at hperm
    exact hperm.subperm.trans (Key.flatten_subperm (distinct_parts hnodup skipped later)
      fun part hpart => (mem_parts hpart).2)
  · let P (key : Key) (part : List (Key × Packet)) : Prop :=
      ∀ e ∈ part, keep e.1 ∧ e.1.coarsen detail == key
    refine Key.forall_collect (P := P) (· ++ ·) ?_ ?_
    · intro a b v w hab hv hw e he
      rcases List.mem_append.mp he with he | he
      · exact hv e he
      · obtain ⟨hk, hb⟩ := hw e he
        exact ⟨hk, BEq.trans hb (BEq.symm hab)⟩
    · intro entry hentry e he
      obtain ⟨part, hpart, rfl⟩ := List.mem_map.mp hentry
      obtain ⟨hkey, hsub⟩ := mem_parts hpart
      have hsame := (List.mem_filter.mp (hsub.mem he)).2
      exact ⟨(hkeep _ _ hsame).trans (List.mem_filter.mp hkey).2, Key.coarsen_congr hsame detail⟩

-- What a packet is shown for: a run of captures that were let through, joined to it,
-- all filed under its key when grouped.
structure ShownFor (keep : Key → Bool) (detail : Detail) (run : List (Key × Packet))
    (shown : Key × Packet) : Prop where
  joined : Packet.joinedRun? run = some shown.2
  kept : ∀ e ∈ run, keep e.1 ∧ e.1.coarsen detail == shown.1

theorem exists_runs_grouped {keep : Key → Bool} {detail : Detail} (threshold : Span)
    {grouped : List (Key × List (Key × Packet))}
    (h : ∀ part ∈ grouped, ∀ e ∈ part.2, keep e.1 ∧ e.1.coarsen detail == part.1) :
    ∃ runs : List (List (Key × Packet)), runs.flatten.Perm (grouped.map (·.2)).flatten ∧
      List.Forall₂ (ShownFor keep detail) runs
        (grouped.flatMap fun part =>
          (Packet.coalesce (part.2.map (·.2)) threshold).map (part.1, ·)) := by
  induction grouped with
  | nil => exact ⟨[], .nil, .nil⟩
  | cons part rest ih =>
      obtain ⟨hpart, hrest⟩ := List.forall_mem_cons.mp h
      obtain ⟨later, hlater, hshown⟩ := ih hrest
      obtain ⟨runs, hperm, hruns⟩ := Packet.exists_runs_coalesce part.2 threshold
      have hjoined : List.Forall₂ (fun run p => Packet.joinedRun? run = some p) runs
          (Packet.coalesce (part.2.map (·.2)) threshold) := by
        rw [← List.forall₂_eq_eq_eq, List.forall₂_map_left_iff, List.forall₂_map_right_iff] at hruns
        exact hruns
      have hkept : ∀ run ∈ runs, ∀ e ∈ run, keep e.1 ∧ e.1.coarsen detail == part.1 := by
        intro run hrun e he
        exact hpart e (hperm.mem_iff.mp (List.mem_flatten.mpr ⟨run, hrun, he⟩))
      have hfirst := (List.forall₂_and_left _ _).mpr ⟨hkept, hjoined⟩
      refine ⟨runs ++ later, ?_, ?_⟩
      · rw [List.flatten_append, List.map_cons, List.flatten_cons]
        exact hperm.append hlater
      · rw [List.flatMap_cons]
        refine List.rel_append ?_ hshown
        rw [List.forall₂_map_right_iff]
        exact hfirst.imp fun _ _ hboth => ⟨hboth.2, hboth.1⟩

theorem shown_packets (t : Traffic) (keep : Key → Bool) (detail : Detail) (since : Marks)
    (threshold : Span) :
    shown (t.packets keep detail since threshold) =
      (pairs (group detail (t.fresh keep since))).flatMap
        fun e => (Packet.coalesce e.2 threshold).map (e.1, ·) := by
  rw [shown, packets, pairs, List.flatMap_map, List.flatMap_map]

-- All that is shown is made of captures that came later than the marks or later than
-- the forgetting of what they counted, each used at most once.
theorem exists_runs_packets {t : Traffic} {captures old later : List (Key × Packet)}
    {marks : Marks} (h : t.Holds captures)
    (hmarks : ∀ key, marks.countOf key = (Key.valuesOf key old).length)
    (hcaptures : captures = old ++ later ∨ captures = later) {keep : Key → Bool}
    (hkeep : Key.Respects keep) (detail : Detail) (threshold : Span) :
    ∃ runs : List (List (Key × Packet)), runs.flatten.Subperm later ∧
      List.Forall₂ (ShownFor keep detail) runs
        (shown (t.packets keep detail marks threshold)) := by
  obtain ⟨grouped, hgroup, hsub, hgrouped⟩ := exists_parts h hmarks hcaptures hkeep detail
  obtain ⟨runs, hperm, hshown⟩ := exists_runs_grouped threshold hgrouped
  refine ⟨runs, hperm.subperm.trans hsub, ?_⟩
  rw [shown_packets, hgroup, List.flatMap_map]
  exact hshown

end CallWatch.Traffic

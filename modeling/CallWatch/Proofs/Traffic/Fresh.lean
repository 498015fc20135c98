import CallWatch.Proofs.Traffic.Streams

namespace CallWatch.Traffic

-- What can happen to captured traffic.
inductive Change where
  | capture (key : Key) (direction : Direction) (time : Int64) (bytes : List UInt8)
  | clear
deriving DecidableEq

def change (t : Traffic) : Change → Traffic
  | .capture key direction time bytes => t.capture key direction time bytes
  | .clear => .empty

def replay (t : Traffic) (changes : List Change) : Traffic :=
  changes.foldl change t

namespace Change

def extend (captures : List (Key × Packet)) : Change → List (Key × Packet)
  | capture key direction time bytes =>
      if bytes.isEmpty then captures else captures ++ [(key, .single direction time bytes)]
  | clear => []

-- The captures after the last clearing, without the empty ones.
def lasting (changes : List Change) : List (Key × Packet) :=
  changes.foldl extend []

theorem foldl_extend (captures : List (Key × Packet)) {changes : List Change}
    (h : .clear ∉ changes) : changes.foldl extend captures = captures ++ lasting changes := by
  induction changes using List.reverseRecOn with
  | nil => exact (List.append_nil captures).symm
  | append_singleton changes c ih =>
      rw [List.mem_append, not_or, List.mem_singleton] at h
      rw [lasting, List.foldl_append, List.foldl_append, ih h.1, ← lasting]
      cases c with
      | clear => exact absurd rfl h.2
      | capture key direction time bytes =>
          simp only [List.foldl_cons, List.foldl_nil, extend]
          split
          · rfl
          · rw [List.append_assoc]

theorem lasting_append (past : List Change) {after : List Change} (h : .clear ∉ after) :
    lasting (past ++ after) = lasting past ++ lasting after := by
  rw [lasting, List.foldl_append, foldl_extend _ h, ← lasting]

end Change

namespace Holds

variable {t : Traffic} {captures : List (Key × Packet)}

theorem change (h : t.Holds captures) (c : Change) : (t.change c).Holds (c.extend captures) := by
  cases c with
  | capture key direction time bytes =>
      rw [Traffic.change, capture, Change.extend]
      split
      · exact h
      · exact h.append key _
  | clear => exact holds_empty

theorem replay (h : t.Holds captures) (changes : List Change) :
    (t.replay changes).Holds (changes.foldl Change.extend captures) := by
  induction changes generalizing t captures with
  | nil => exact h
  | cons c rest ih => exact ih (h.change c)

end Holds

section

variable (keep : Key → Bool) (detail : Detail) (old later : List (Key × Packet))

-- The keys that are let through and received something later, in the order in which they
-- were first captured.
def renewed : List Key :=
  (Key.firsts ((old ++ later).map (·.1))).filter fun key => keep key && later.any (·.1 == key)

-- What such keys received later that come under one key in less detail: key after key, for
-- each in the order of its captures.
def receipts (group : Key) : List Packet :=
  ((renewed keep old later).filter (·.coarsen detail == group)).flatMap
    fun key => Key.valuesOf key later

variable {keep detail old later}

theorem valuesOf_isEmpty (key : Key) :
    (!(Key.valuesOf key later).isEmpty) = later.any (·.1 == key) := by
  rw [Key.valuesOf, List.isEmpty_map, Bool.eq_iff_iff]
  simp [List.any_eq_true]

theorem receipts_eq_nil_iff {group : Key} :
    receipts keep detail old later group = [] ↔
      ∀ key ∈ renewed keep old later, ¬ key.coarsen detail == group := by
  have hsome {key : Key} (hkey : key ∈ renewed keep old later) : Key.valuesOf key later ≠ [] := by
    have hany := (Bool.and_eq_true_iff.mp (List.mem_filter.mp hkey).2).2
    rw [← valuesOf_isEmpty] at hany
    simpa using hany
  rw [receipts, List.flatMap_eq_nil_iff]
  constructor
  · intro h key hkey hgroup
    exact hsome hkey (h key (List.mem_filter.mpr ⟨hkey, hgroup⟩))
  · intro h key hkey
    obtain ⟨hrenewed, hgroup⟩ := List.mem_filter.mp hkey
    exact absurd hgroup (h key hrenewed)

theorem receipts_congr {a b : Key} (h : a == b) :
    receipts keep detail old later a = receipts keep detail old later b := by
  simp only [receipts, BEq.congr_right h]

-- A filter that cannot tell equal keys apart lets through what was captured under them,
-- whichever of them came first.
theorem receipts_perm (hkeep : Key.Respects keep) (group : Key) :
    (receipts keep detail old later group).Perm
      ((later.filter fun e => keep e.1 && e.1.coarsen detail == group).map (·.2)) := by
  let chosen (key : Key) : Bool :=
    key.coarsen detail == group && (keep key && later.any (·.1 == key))
  have hchosen : Key.Respects chosen := fun a b hab => by
    have hgroup := BEq.congr_left (c := group) (Key.coarsen_congr hab detail)
    simp only [chosen, hgroup, hkeep a b hab, BEq.congr_right hab]
  have hkeys : ∀ e ∈ later, e.1 ∈ (old ++ later).map (·.1) := fun e he =>
    List.mem_map_of_mem (List.mem_append_right old he)
  have hlater : (later.filter (chosen ·.1)) =
      later.filter fun e => keep e.1 && e.1.coarsen detail == group := by
    apply List.filter_congr
    intro e he
    have hany : later.any (·.1 == e.1) := List.any_eq_true.mpr ⟨e, he, BEq.refl _⟩
    simp only [chosen, hany, Bool.and_true]
    exact Bool.and_comm _ _
  have hperm := Key.flatten_valuesOf_firsts_perm hchosen hkeys
  rw [hlater] at hperm
  rwa [receipts, renewed, List.filter_filter, List.flatMap_def]

end

section

variable {t : Traffic} {old later : List (Key × Packet)} {marks : Marks}
  (h : t.Holds (old ++ later))
  (hmarks : ∀ key, marks.countOf key = (Key.valuesOf key old).length)
include h hmarks

-- As long as nothing was forgotten, fresh are the keys that received something later, each
-- with just that.
theorem pairs_fresh_renewed (keep : Key → Bool) :
    pairs (t.fresh keep marks) =
      (renewed keep old later).map fun key => (key, Key.valuesOf key later) := by
  have hpairs : pairs t.streams = collected (old ++ later) := h
  rw [pairs_fresh, hpairs, collected_eq]
  simp only [List.filter_map, List.map_map, Function.comp_def, drop_countOf_append hmarks,
    valuesOf_isEmpty, List.filter_filter, Bool.and_comm, renewed]

variable (keep : Key → Bool) (detail : Detail)

theorem pairs_group_fresh :
    pairs (group detail (t.fresh keep marks)) =
      (Key.firsts ((renewed keep old later).map (·.coarsen detail))).map fun group =>
        (group, receipts keep detail old later group) := by
  rw [pairs_group, pairs_fresh_renewed h hmarks, List.map_map, Key.collect_eq _ List.nil_append,
    List.map_map]
  apply List.map_congr_left
  intro group _
  rw [foldl_append, List.nil_append, receipts, List.flatMap_def, Key.valuesOf, List.filter_map,
    List.map_map]
  rfl

variable (threshold : Span)

theorem pairs_packets_fresh :
    pairs (t.packets keep detail marks threshold) =
      (Key.firsts ((renewed keep old later).map (·.coarsen detail))).map fun group =>
        (group, Packet.coalesce (receipts keep detail old later group) threshold) := by
  have hpackets : pairs (t.packets keep detail marks threshold) =
      (pairs (group detail (t.fresh keep marks))).map
        fun e => (e.1, Packet.coalesce e.2 threshold) := by
    rw [packets, pairs, pairs, List.map_map, List.map_map]
    rfl
  rw [hpackets, pairs_group_fresh h hmarks, List.map_map]
  rfl

-- There is an entry for a key if something came under it.
theorem lookup_packets_fresh (group : Key) :
    Key.lookup (pairs (t.packets keep detail marks threshold)) group =
      if receipts keep detail old later group = [] then none
      else some (Packet.coalesce (receipts keep detail old later group) threshold) := by
  rw [pairs_packets_fresh h hmarks, Key.lookup_map_firsts fun hab => by rw [receipts_congr hab]]
  by_cases hnil : receipts keep detail old later group = []
  · rw [if_pos hnil, if_neg]
    rw [receipts_eq_nil_iff] at hnil
    simpa using hnil
  · rw [if_neg hnil, if_pos]
    rw [receipts_eq_nil_iff] at hnil
    simpa using hnil

end

-- What is shown of captures, by key, when the marks are from the moment between `past` and
-- `after`.
def shownSince (past after : List Change) (keep : Key → Bool) (detail : Detail)
    (threshold : Span) : List (Key × List Packet) :=
  pairs ((empty.replay (past ++ after)).packets keep detail (empty.replay past).marks threshold)

section

variable {past after : List Change} (hclear : .clear ∉ after)
include hclear

theorem holds_replay_append :
    (empty.replay (past ++ after)).Holds (Change.lasting past ++ Change.lasting after) := by
  rw [← Change.lasting_append past hclear]
  exact holds_empty.replay _

variable (keep : Key → Bool) (detail : Detail) (threshold : Span)

theorem shownSince_eq :
    shownSince past after keep detail threshold =
      (Key.firsts ((renewed keep (Change.lasting past) (Change.lasting after)).map
        (·.coarsen detail))).map fun group => (group, Packet.coalesce
          (receipts keep detail (Change.lasting past) (Change.lasting after) group) threshold) :=
  pairs_packets_fresh (holds_replay_append hclear) (holds_empty.replay past).countOf_marks
    keep detail threshold

-- What was received under a key decides what is shown of it, up to the order of captures at
-- different times.
theorem lookup_shownSince_eq_of_perm {past' after' : List Change} (hclear' : .clear ∉ after')
    {group : Key}
    (hperm : (receipts keep detail (Change.lasting past') (Change.lasting after') group).Perm
      (receipts keep detail (Change.lasting past) (Change.lasting after) group))
    (htimes : ((receipts keep detail (Change.lasting past) (Change.lasting after) group).map
      (·.first)).Nodup) :
    Key.lookup (shownSince past' after' keep detail threshold) group =
      Key.lookup (shownSince past after keep detail threshold) group := by
  rw [shownSince, shownSince,
    lookup_packets_fresh (holds_replay_append hclear) (holds_empty.replay past).countOf_marks,
    lookup_packets_fresh (holds_replay_append hclear') (holds_empty.replay past').countOf_marks,
    Packet.coalesce_eq_of_perm hperm htimes]
  simp only [← List.length_eq_zero_iff, hperm.length_eq]

-- Behind the marks there is one entry for each coarser key under which something was let
-- through, where the first key that came under it was first captured. It shows all that was
-- received under it since, and nothing else. The order of the captures is not seen in an
-- entry whose captures are of different times: not as long as the same ones come under it,
-- which is so for every filter that cannot tell equal keys apart.
theorem packets_since_marks :
    shownSince past after keep detail threshold =
        ((Key.firsts ((renewed keep (Change.lasting past) (Change.lasting after)).map
          (·.coarsen detail))).map fun group => (group, Packet.coalesce
            (receipts keep detail (Change.lasting past) (Change.lasting after) group)
              threshold)) ∧
      Key.Distinct (shownSince past after keep detail threshold) ∧
      ∀ (past' after' : List Change) (group : Key), .clear ∉ after' →
        ((receipts keep detail (Change.lasting past) (Change.lasting after) group).map
          (·.first)).Nodup →
        (receipts keep detail (Change.lasting past') (Change.lasting after') group).Perm
            (receipts keep detail (Change.lasting past) (Change.lasting after) group) ∨
          Key.Respects keep ∧ (Change.lasting after').Perm (Change.lasting after) →
        Key.lookup (shownSince past' after' keep detail threshold) group =
          Key.lookup (shownSince past after keep detail threshold) group := by
  have heq : shownSince past after keep detail threshold = _ :=
    shownSince_eq hclear keep detail threshold
  refine ⟨heq, ?_, fun past' after' group hclear' htimes hsame => ?_⟩
  · rw [heq, Key.Distinct, List.map_map]
    exact Key.nodup_firsts _
  · refine lookup_shownSince_eq_of_perm hclear keep detail threshold hclear' ?_ htimes
    rcases hsame with hperm | ⟨hkeep, hperm⟩
    · exact hperm
    · exact (receipts_perm hkeep group).trans
        (((hperm.filter _).map _).trans (receipts_perm hkeep group).symm)

end

-- Two connections are shown together, whichever of them sends first.
theorem packets_since_marks_together :
    let origin : Origin := ⟨none, none⟩
    let one : Key := ⟨.socket ⟨"db", 5432, 1, none⟩, origin⟩
    let two : Key := ⟨.socket ⟨"db", 5432, 2, none⟩, origin⟩
    let past : List Change := [.capture one .sent 0 [1], .clear, .capture one .sent 1 [2]]
    ∀ threshold : Span,
      Key.lookup (shownSince past [.capture two .sent 9 [3], .capture one .sent 4 [4]]
          (fun _ => true) .endpointOnly threshold) (one.coarsen .endpointOnly) =
        Key.lookup (shownSince past [.capture one .sent 4 [4], .capture two .sent 9 [3]]
          (fun _ => true) .endpointOnly threshold) (one.coarsen .endpointOnly) := by
  intro origin one two past threshold
  have hclear : .clear ∉ [Change.capture one .sent 4 [4], .capture two .sent 9 [3]] := by decide
  obtain ⟨-, -, hsame⟩ :=
    @packets_since_marks past _ hclear (fun _ => true) .endpointOnly threshold
  refine hsame past _ _ (by decide) (by decide) (.inr ⟨fun _ _ _ => rfl, ?_⟩)
  exact List.Perm.swap _ _ []

end CallWatch.Traffic

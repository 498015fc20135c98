import CallWatch.Proofs.Packet.Volume
import CallWatch.Proofs.Traffic.Streams

namespace CallWatch.Traffic

-- How many bytes streams show one way.
def volume (direction : Direction) (streams : List Stream) : Nat :=
  Packet.volume direction (streams.flatMap (·.packets))

variable (direction : Direction)

theorem volume_eq (streams : List Stream) :
    volume direction streams = Packet.volume direction ((pairs streams).map (·.2)).flatten := by
  rw [volume, pairs, List.map_map, List.flatMap_def]
  rfl

-- Grouping moves packets between streams, and coalescing joins them within one.
theorem volume_group (detail : Detail) (streams : List Stream) :
    volume direction (group detail streams) = volume direction streams := by
  have hperm := Key.flatten_collect_perm ((pairs streams).map fun e => (e.1.coarsen detail, e.2))
  rw [List.map_map] at hperm
  rw [volume_eq, volume_eq, pairs_group]
  exact Packet.volume_perm direction hperm

theorem volume_map_coalesce (streams : List Stream) (threshold : Span) :
    volume direction (streams.map fun s =>
      { s with packets := Packet.coalesce s.packets threshold }) = volume direction streams := by
  induction streams with
  | nil => rfl
  | cons s rest ih =>
      simp only [volume, List.map_cons, List.flatMap_cons, Packet.volume_append,
        Packet.volume_coalesce] at ih ⊢
      rw [ih]

-- Streams with nothing new carry nothing.
theorem flatten_filter_not_isEmpty (parts : List (Key × List Packet)) :
    ((parts.filter fun e => !e.2.isEmpty).map (·.2)).flatten = (parts.map (·.2)).flatten := by
  induction parts with
  | nil => rfl
  | cons e rest ih =>
      rw [List.filter_cons]
      split
      · rw [List.map_cons, List.flatten_cons, ih, List.map_cons, List.flatten_cons]
      · rename_i hempty
        have hnil : e.2 = [] := by simpa using hempty
        rw [ih, List.map_cons, List.flatten_cons, hnil, List.nil_append]

variable {t : Traffic} {old later : List (Key × Packet)} {marks : Marks}

-- As long as nothing was forgotten, the packets behind the marks are the later ones.
theorem volume_fresh (h : t.Holds (old ++ later))
    (hmarks : ∀ key, marks.countOf key = (Key.valuesOf key old).length) {keep : Key → Bool}
    (hkeep : Key.Respects keep) :
    volume direction (t.fresh keep marks) =
      Packet.volume direction ((later.filter (keep ·.1)).map (·.2)) := by
  have hkeys : ∀ e ∈ later, e.1 ∈ (old ++ later).map (·.1) := fun e he =>
    List.mem_map_of_mem (List.mem_append_right old he)
  have hpairs : pairs t.streams = collected (old ++ later) := h
  rw [volume_eq, pairs_fresh, flatten_filter_not_isEmpty, hpairs, collected_eq, List.filter_map,
    List.map_map, List.map_map]
  refine (Packet.volume_perm direction ?_).trans
    (Packet.volume_perm direction (Key.flatten_valuesOf_firsts_perm hkeep hkeys))
  simp only [Function.comp_def, drop_countOf_append hmarks]
  exact List.Perm.refl _

-- What is shown carries exactly the bytes that were captured later.
theorem volume_packets (h : t.Holds (old ++ later))
    (hmarks : ∀ key, marks.countOf key = (Key.valuesOf key old).length) {keep : Key → Bool}
    (hkeep : Key.Respects keep) (detail : Detail) (threshold : Span) :
    volume direction (t.packets keep detail marks threshold) =
      Packet.volume direction ((later.filter (keep ·.1)).map (·.2)) := by
  rw [packets, volume_map_coalesce, volume_group, volume_fresh direction h hmarks hkeep]

end CallWatch.Traffic

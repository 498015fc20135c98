import CallWatch.Packet
import Mathlib.Data.List.Nodup

namespace CallWatch.Packet

theorem last_append (p next : Packet) :
    (p.append next).last = if p.last ≤ next.last then next.last else p.last := rfl

theorem last_append_eq (p next : Packet) :
    (p.append next).last = p.last ∨ (p.append next).last = next.last := by
  rw [last_append]
  split
  · exact .inr rfl
  · exact .inl rfl

theorem toInt_last_append (p next : Packet) :
    (p.append next).last.toInt = max p.last.toInt next.last.toInt := by
  rw [last_append]
  split
  · rename_i h
    exact (Int.max_eq_right (Int64.le_iff_toInt_le.mp h)).symm
  · rename_i h
    rw [Int64.le_iff_toInt_le] at h
    exact (Int.max_eq_left (by omega)).symm

theorem le_last_append_left (p next : Packet) : p.last ≤ (p.append next).last := by
  rw [Int64.le_iff_toInt_le, toInt_last_append]
  exact Int.le_max_left _ _

theorem le_last_append_right (p next : Packet) : next.last ≤ (p.append next).last := by
  rw [Int64.le_iff_toInt_le, toInt_last_append]
  exact Int.le_max_right _ _

theorem append_assoc (p q r : Packet) : (p.append q).append r = p.append (q.append r) := by
  have hlast : ((p.append q).append r).last = (p.append (q.append r)).last :=
    Int64.toInt_inj.mp (by simp only [toInt_last_append, Int.max_assoc])
  calc (p.append q).append r
    _ = ⟨p.direction, p.first, ((p.append q).append r).last, p.bytes ++ q.bytes ++ r.bytes⟩ := rfl
    _ = ⟨p.direction, p.first, (p.append (q.append r)).last, p.bytes ++ (q.bytes ++ r.bytes)⟩ := by
        rw [hlast, List.append_assoc]
    _ = p.append (q.append r) := rfl

theorem joins_iff {p next : Packet} {threshold : Span} :
    p.joins next threshold ↔
      p.direction = next.direction ∧ gap p.last next.first ≤ reach threshold := by
  rw [joins, Bool.and_eq_true, decide_eq_true_eq, decide_eq_true_eq]

-- Whether a packet may be joined to the one in front of it depends on its beginning only.
theorem joins_append (p q r : Packet) (threshold : Span) :
    p.joins (q.append r) threshold = p.joins q threshold := rfl

theorem absorb_of_joins {p next : Packet} {threshold : Span} (h : p.joins next threshold)
    (rest : List Packet) :
    absorb threshold p (next :: rest) = absorb threshold (p.append next) rest := by
  rw [absorb, join?, if_pos h]

theorem absorb_of_not_joins {p next : Packet} {threshold : Span} (h : ¬ p.joins next threshold)
    (rest : List Packet) :
    absorb threshold p (next :: rest) = p :: absorb threshold next rest := by
  rw [absorb, join?, if_neg h]

-- Packets with their neighbours joined where they may be, in the order given.
def joinNeighbours (threshold : Span) : List Packet → List Packet
  | [] => []
  | first :: rest => absorb threshold first rest

theorem coalesce_eq (packets : List Packet) (threshold : Span) :
    coalesce packets threshold =
      joinNeighbours threshold (packets.mergeSort fun a b => a.first ≤ b.first) := by
  rw [coalesce]
  split <;> rename_i h <;> rw [h, joinNeighbours]

-- Packets that are in the order of their times stay where they are.
theorem coalesce_of_pairwise {packets : List Packet}
    (h : packets.Pairwise fun a b => a.first ≤ b.first) (threshold : Span) :
    coalesce packets threshold = joinNeighbours threshold packets := by
  rw [coalesce_eq, List.mergeSort_of_pairwise (h.imp decide_eq_true)]

theorem first_le_trans (a b c : Packet) (hab : decide (a.first ≤ b.first))
    (hbc : decide (b.first ≤ c.first)) : decide (a.first ≤ c.first) :=
  decide_eq_true (Int64.le_trans (of_decide_eq_true hab) (of_decide_eq_true hbc))

theorem first_le_total (a b : Packet) :
    (decide (a.first ≤ b.first) || decide (b.first ≤ a.first)) = true := by
  simpa using Int64.le_total a.first b.first

theorem pairwise_mergeSort_first (packets : List Packet) :
    (packets.mergeSort fun a b => a.first ≤ b.first).Pairwise fun a b => a.first ≤ b.first :=
  (List.pairwise_mergeSort first_le_trans first_le_total packets).imp of_decide_eq_true

-- Packets of different times have one order only.
theorem coalesce_eq_of_perm {packets others : List Packet} (hperm : others.Perm packets)
    (htimes : (packets.map (·.first)).Nodup) (threshold : Span) :
    coalesce others threshold = coalesce packets threshold := by
  rw [coalesce_eq, coalesce_eq]
  congr 1
  apply List.Perm.eq_of_pairwise _ (pairwise_mergeSort_first others)
    (pairwise_mergeSort_first packets)
  · exact (List.mergeSort_perm others _).trans (hperm.trans (List.mergeSort_perm packets _).symm)
  · intro p q hp hq hpq hqp
    have hp' : p ∈ packets := hperm.mem_iff.mp ((List.mergeSort_perm others _).mem_iff.mp hp)
    have hq' : q ∈ packets := (List.mergeSort_perm packets _).mem_iff.mp hq
    exact List.inj_on_of_nodup_map htimes hp' hq' (Int64.le_antisymm hpq hqp)

-- A joined packet begins when its first transfer did.
theorem firsts_absorb_sublist (threshold : Span) (pending : Packet) (rest : List Packet) :
    ((absorb threshold pending rest).map Packet.first).Sublist
      ((pending :: rest).map Packet.first) := by
  induction rest generalizing pending with
  | nil => exact List.Sublist.refl _
  | cons next rest ih =>
      by_cases hjoins : pending.joins next threshold
      · rw [absorb_of_joins hjoins]
        exact (ih (pending.append next)).trans ((List.sublist_cons_self _ _).cons_cons _)
      · rw [absorb_of_not_joins hjoins]
        exact (ih next).cons_cons _

theorem pairwise_coalesce (packets : List Packet) (threshold : Span) :
    (coalesce packets threshold).Pairwise fun a b => a.first ≤ b.first := by
  have hsorted := pairwise_mergeSort_first packets
  rw [coalesce_eq]
  cases hs : packets.mergeSort fun a b => a.first ≤ b.first with
  | nil => exact List.Pairwise.nil
  | cons first rest =>
      rw [hs] at hsorted
      exact List.pairwise_map.mp
        ((List.pairwise_map.mpr hsorted).sublist (firsts_absorb_sublist threshold first rest))

end CallWatch.Packet

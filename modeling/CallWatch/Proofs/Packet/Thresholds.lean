import CallWatch.Proofs.Packet.Joining

namespace CallWatch.Packet

-- The later a packet ends, the shorter is the gap behind it.
theorem gap_antitone {earlier later : Int64} (h : earlier ≤ later) (time : Int64) :
    gap later time ≤ gap earlier time := by
  rw [Int64.le_iff_toInt_le] at h
  simp only [gap]
  omega

section

variable {narrow wide : Span} (hspan : narrow.nanos ≤ wide.nanos)
include hspan

theorem reach_mono : reach narrow ≤ reach wide := by
  have hmillis : narrow.millis ≤ wide.millis := Nat.div_le_div_right hspan
  simp only [reach]
  omega

theorem joins_wide {p next : Packet} (h : p.joins next narrow) : p.joins next wide := by
  obtain ⟨hdirection, hgap⟩ := joins_iff.mp h
  exact joins_iff.mpr ⟨hdirection, Int.le_trans hgap (reach_mono hspan)⟩

-- What a packet was joined to does not end before it. A transfer that may join the packet
-- may therefore join the whole.
theorem append_joins_wide {p q r : Packet} (hpq : p.joins q wide) (hqr : q.joins r narrow) :
    (p.append q).joins r wide := by
  obtain ⟨hdirection, hgap⟩ := joins_iff.mp (joins_wide hspan hqr)
  exact joins_iff.mpr ⟨(joins_iff.mp hpq).1.trans hdirection,
    Int.le_trans (gap_antitone (le_last_append_right p q) r.first) hgap⟩

-- Joining over a short threshold first does not change what a pending packet absorbs over
-- a longer one. The cases are whether the next two transfers join over the short one, and
-- whether the pending packet takes the first of them over the longer one.
theorem absorb_absorb (pending next : Packet) (rest : List Packet) :
    absorb wide pending (absorb narrow next rest) = absorb wide pending (next :: rest) := by
  induction rest generalizing pending next with
  | nil => rfl
  | cons r rest ih =>
      by_cases hnarrow : next.joins r narrow
      · rw [absorb_of_joins hnarrow, ih]
        by_cases hwide : pending.joins next wide
        · have hboth : pending.joins (next.append r) wide := by rwa [joins_append]
          rw [absorb_of_joins hboth, absorb_of_joins hwide,
            absorb_of_joins (append_joins_wide hspan hwide hnarrow), append_assoc]
        · have hneither : ¬ pending.joins (next.append r) wide := by rwa [joins_append]
          rw [absorb_of_not_joins hneither, absorb_of_not_joins hwide,
            absorb_of_joins (joins_wide hspan hnarrow)]
      · rw [absorb_of_not_joins hnarrow]
        by_cases hwide : pending.joins next wide
        · rw [absorb_of_joins hwide, absorb_of_joins hwide, ih]
        · rw [absorb_of_not_joins hwide, absorb_of_not_joins hwide, ih]

theorem joinNeighbours_absorb (next : Packet) (rest : List Packet) :
    joinNeighbours wide (absorb narrow next rest) = absorb wide next rest := by
  induction rest generalizing next with
  | nil => rfl
  | cons r rest ih =>
      by_cases hnarrow : next.joins r narrow
      · rw [absorb_of_joins hnarrow, ih, absorb_of_joins (joins_wide hspan hnarrow)]
      · rw [absorb_of_not_joins hnarrow, joinNeighbours, absorb_absorb hspan]

theorem joinNeighbours_joinNeighbours (packets : List Packet) :
    joinNeighbours wide (joinNeighbours narrow packets) = joinNeighbours wide packets := by
  cases packets with
  | nil => rfl
  | cons first rest => exact joinNeighbours_absorb hspan first rest

end

-- Joining over one threshold and then over a longer one is joining over the longer one. Over
-- one and the same, joining again changes nothing.
theorem coalesce_coalesce (packets : List Packet) {narrow wide : Span}
    (h : narrow.nanos ≤ wide.nanos) :
    coalesce (coalesce packets narrow) wide = coalesce packets wide := by
  rw [coalesce_of_pairwise (pairwise_coalesce packets narrow), coalesce_eq packets narrow,
    joinNeighbours_joinNeighbours h, ← coalesce_eq]

-- The third transfer ends before it begins, and the second one ends behind the fourth.
theorem coalesce_coalesce_overlapping :
    (10000000 : Nat) ≤ 500000000 ∧
      coalesce
          (coalesce
            [⟨.received, -5, -5, [1]⟩, ⟨.sent, 0, 100, [2]⟩, ⟨.sent, 7, 3, [3]⟩, ⟨.sent, 90, 90, [4]⟩,
              ⟨.sent, 111, 111, [5]⟩]
            ⟨10000000, by decide⟩)
          ⟨500000000, by decide⟩ =
        [⟨.received, -5, -5, [1]⟩, ⟨.sent, 0, 111, [2, 3, 4, 5]⟩] := by
  refine ⟨by decide, (coalesce_coalesce _ (by decide)).trans ?_⟩
  rw [coalesce_of_pairwise (by decide)]
  decide

end CallWatch.Packet

import CallWatch.Proofs.Packet.Joining
import Mathlib.Data.List.Chain
import Mathlib.Data.List.Forall2
import Mathlib.Data.List.Pairwise

namespace CallWatch.Packet

-- Transfers in the order of their times. Those of one time keep the order they had.
structure InTimeOrder (packets sorted : List Packet) : Prop where
  perm : sorted.Perm packets
  ordered : sorted.Pairwise fun p q => p.first ≤ q.first
  stable : ∀ time, sorted.filter (·.first = time) = packets.filter (·.first = time)

-- The greatest of the last times of a run.
def Latest (run : List Packet) (time : Int64) : Prop :=
  (∃ p ∈ run, p.last = time) ∧ ∀ p ∈ run, p.last ≤ time

-- A transfer goes on with a run if it goes the way of the one in front of it and does not
-- begin more than the threshold behind the end of the run. The gap is a difference of
-- integers, whether or not the clock can hold it.
structure Continues (threshold : Span) (run : List Packet) (next : Packet) : Prop where
  direction : ∃ previous ∈ run.getLast?, previous.direction = next.direction
  gap : ∃ latest, Latest run latest ∧ next.first.toInt - latest.toInt ≤ threshold.millis

def Uncut (threshold : Span) (run : List Packet) : Prop :=
  ∀ front next rest, run = front ++ next :: rest → front ≠ [] → Continues threshold front next

-- Consecutive runs, with a cut in front of exactly the transfers that do not go on with
-- the run so far.
structure Cuts (threshold : Span) (packets : List Packet) (runs : List (List Packet)) : Prop where
  flatten : runs.flatten = packets
  ne_nil : ∀ run ∈ runs, run ≠ []
  uncut : ∀ run ∈ runs, Uncut threshold run
  cut : runs.IsChain fun run following => ∀ next ∈ following.head?, ¬ Continues threshold run next

-- The packet that a run is shown as.
structure Shows (run : List Packet) (shown : Packet) : Prop where
  direction : ∀ p ∈ run, p.direction = shown.direction
  first : run.head?.map Packet.first = some shown.first
  last : Latest run shown.last
  bytes : shown.bytes = run.flatMap Packet.bytes

theorem inTimeOrder_mergeSort (packets : List Packet) :
    InTimeOrder packets (packets.mergeSort fun a b => a.first ≤ b.first) where
  perm := List.mergeSort_perm packets _
  ordered := pairwise_mergeSort_first packets
  stable time := by
    have htime : ∀ p ∈ packets.filter (·.first = time), p.first = time := fun p hp =>
      of_decide_eq_true (List.mem_filter.mp hp).2
    have hsame : (packets.filter (·.first = time)).Pairwise fun a b =>
        decide (a.first ≤ b.first) := by
      refine List.pairwise_of_forall_mem_list fun a ha b hb => decide_eq_true ?_
      rw [htime a ha, htime b hb]
      exact Int64.le_refl time
    have hsublist := (List.sublist_mergeSort first_le_trans first_le_total hsame
      List.filter_sublist).filter (·.first = time)
    simp only [List.filter_filter, Bool.and_self] at hsublist
    have hlength := ((List.mergeSort_perm packets fun a b => a.first ≤ b.first).filter
      (·.first = time)).length_eq
    exact (hsublist.eq_of_length hlength.symm).symm

theorem Latest.unique {run : List Packet} {s t : Int64} (hs : Latest run s) (ht : Latest run t) :
    s = t := by
  obtain ⟨⟨p, hp, rfl⟩, hsup⟩ := hs
  obtain ⟨⟨q, hq, rfl⟩, htup⟩ := ht
  exact Int64.le_antisymm (htup p hp) (hsup q hq)

-- The clock's greatest time stands for every gap that is too long for it, so the threshold
-- has to be less.
theorem gap_le_reach_iff {threshold : Span} (h : (threshold.millis : Int) < clockMax)
    (earlier later : Int64) :
    gap earlier later ≤ reach threshold ↔ later.toInt - earlier.toInt ≤ threshold.millis := by
  simp only [gap, reach, clockMin, clockMax] at h ⊢
  omega

namespace Shows

theorem single (p : Packet) : Shows [p] p where
  direction q hq := congrArg Packet.direction (List.mem_singleton.mp hq)
  first := rfl
  last := ⟨⟨p, List.mem_singleton_self p, rfl⟩, fun q hq => by
    rw [List.mem_singleton.mp hq]
    exact Int64.le_refl _⟩
  bytes := by simp

variable {run : List Packet} {shown : Packet} (hshown : Shows run shown)
include hshown

theorem ne_nil : run ≠ [] := by
  rintro rfl
  cases hshown.first

theorem concat {next : Packet} (hdirection : shown.direction = next.direction) :
    Shows (run ++ [next]) (shown.append next) where
  direction p hp := by
    rcases List.mem_append.mp hp with hp | hp
    · exact hshown.direction p hp
    · rw [List.mem_singleton.mp hp]
      exact hdirection.symm
  first := by
    rw [List.head?_append_of_ne_nil _ hshown.ne_nil]
    exact hshown.first
  last := by
    constructor
    · rcases last_append_eq shown next with hlast | hlast
      · obtain ⟨p, hp, he⟩ := hshown.last.1
        exact ⟨p, List.mem_append_left _ hp, he.trans hlast.symm⟩
      · exact ⟨next, List.mem_append_right _ (List.mem_singleton_self next), hlast.symm⟩
    · intro p hp
      rcases List.mem_append.mp hp with hp | hp
      · exact Int64.le_trans (hshown.last.2 p hp) (le_last_append_left shown next)
      · rw [List.mem_singleton.mp hp]
        exact le_last_append_right shown next
  bytes := by
    rw [List.flatMap_append, ← hshown.bytes, List.flatMap_singleton]
    rfl

theorem joins_iff_continues {threshold : Span} (h : (threshold.millis : Int) < clockMax)
    (next : Packet) : shown.joins next threshold ↔ Continues threshold run next := by
  rw [joins_iff, gap_le_reach_iff h]
  constructor
  · rintro ⟨hdirection, hgap⟩
    refine ⟨⟨run.getLast hshown.ne_nil, List.getLast_mem_getLast? hshown.ne_nil, ?_⟩,
      shown.last, hshown.last, hgap⟩
    exact (hshown.direction _ (List.getLast_mem hshown.ne_nil)).trans hdirection
  · rintro ⟨⟨previous, hprevious, hdirection⟩, latest, hlatest, hgap⟩
    rw [← hlatest.unique hshown.last]
    exact ⟨(hshown.direction previous (List.mem_of_mem_getLast? hprevious)).symm.trans hdirection,
      hgap⟩

end Shows

theorem uncut_singleton (threshold : Span) (p : Packet) : Uncut threshold [p] := by
  intro front next rest hrun hfront
  cases front with
  | nil => exact absurd rfl hfront
  | cons first front =>
      have htail := (List.cons.inj hrun).2
      simp at htail

theorem Uncut.concat {threshold : Span} {run : List Packet} {next : Packet}
    (h : Uncut threshold run) (hnext : Continues threshold run next) :
    Uncut threshold (run ++ [next]) := by
  intro front other rest hrun hfront
  rcases List.eq_nil_or_concat rest with rfl | ⟨rest, last, rfl⟩
  · obtain ⟨rfl, hlast⟩ := List.append_inj' hrun rfl
    rwa [← (List.cons.inj hlast).1]
  · rw [List.concat_eq_append, ← List.cons_append, ← List.append_assoc] at hrun
    exact h front other rest (List.append_inj' hrun rfl).1 hfront

theorem Cuts.cons {threshold : Span} {run rest : List Packet} {next : Packet}
    {runs : List (List Packet)} (hrun : run ≠ []) (huncut : Uncut threshold run)
    (hnext : ¬ Continues threshold run next) (h : Cuts threshold (next :: rest) runs) :
    Cuts threshold (run ++ next :: rest) (run :: runs) where
  flatten := by rw [List.flatten_cons, h.flatten]
  ne_nil := List.forall_mem_cons.mpr ⟨hrun, h.ne_nil⟩
  uncut := List.forall_mem_cons.mpr ⟨huncut, h.uncut⟩
  cut := by
    refine List.isChain_cons.mpr ⟨fun following hfollowing first hfirst => ?_, h.cut⟩
    obtain ⟨runs, rfl⟩ := List.head?_eq_some_iff.mp hfollowing
    obtain ⟨following, rfl⟩ := List.head?_eq_some_iff.mp hfirst
    rwa [(List.cons.inj h.flatten).1]

-- A pending packet stands for the run so far. The transfers behind it go on with that run,
-- or the first of them begins the next one.
theorem exists_cuts_absorb {threshold : Span} (h : (threshold.millis : Int) < clockMax)
    {run : List Packet} {pending : Packet} (hshown : Shows run pending)
    (huncut : Uncut threshold run) (rest : List Packet) :
    ∃ runs, Cuts threshold (run ++ rest) runs ∧
      List.Forall₂ Shows runs (absorb threshold pending rest) := by
  induction rest generalizing run pending with
  | nil =>
      refine ⟨[run], ⟨by simp, ?_, ?_, List.IsChain.singleton run⟩, .cons hshown .nil⟩
      · exact List.forall_mem_singleton.mpr hshown.ne_nil
      · exact List.forall_mem_singleton.mpr huncut
  | cons next rest ih =>
      by_cases hjoins : pending.joins next threshold
      · have hcontinues := (hshown.joins_iff_continues h next).mp hjoins
        obtain ⟨runs, hcuts, hruns⟩ :=
          ih (hshown.concat (joins_iff.mp hjoins).1) (huncut.concat hcontinues)
        rw [List.append_assoc, List.singleton_append] at hcuts
        exact ⟨runs, hcuts, by rwa [absorb_of_joins hjoins]⟩
      · have hcontinues := mt (hshown.joins_iff_continues h next).mpr hjoins
        obtain ⟨runs, hcuts, hruns⟩ := ih (Shows.single next) (uncut_singleton threshold next)
        refine ⟨run :: runs, .cons hshown.ne_nil huncut hcontinues hcuts, ?_⟩
        rw [absorb_of_not_joins hjoins]
        exact .cons hshown hruns

theorem exists_cuts_joinNeighbours {threshold : Span} (h : (threshold.millis : Int) < clockMax)
    (packets : List Packet) :
    ∃ runs, Cuts threshold packets runs ∧
      List.Forall₂ Shows runs (joinNeighbours threshold packets) := by
  cases packets with
  | nil => exact ⟨[], ⟨rfl, by simp, by simp, .nil⟩, .nil⟩
  | cons first rest =>
      exact exists_cuts_absorb h (Shows.single first) (uncut_singleton threshold first) rest

theorem flatMap_bytes_of_shows {runs : List (List Packet)} {shown : List Packet}
    (h : List.Forall₂ Shows runs shown) :
    shown.flatMap Packet.bytes = runs.flatten.flatMap Packet.bytes := by
  induction h with
  | nil => rfl
  | cons hrun _ ih => rw [List.flatMap_cons, ih, hrun.bytes, List.flatten_cons, List.flatMap_append]

-- Coalescing cuts the transfers, in the order of their times, into runs and shows each run as
-- one packet. What is shown has the same bytes in the same order, and is in order itself.
theorem coalesce_shows_runs (packets : List Packet) {threshold : Span}
    (h : (threshold.millis : Int) < clockMax) :
    ∃ sorted runs, InTimeOrder packets sorted ∧ Cuts threshold sorted runs ∧
      List.Forall₂ Shows runs (coalesce packets threshold) ∧
      (coalesce packets threshold).flatMap Packet.bytes = sorted.flatMap Packet.bytes ∧
      (coalesce packets threshold).Pairwise fun p q => p.first ≤ q.first := by
  obtain ⟨runs, hcuts, hshown⟩ :=
    exists_cuts_joinNeighbours h (packets.mergeSort fun a b => a.first ≤ b.first)
  rw [← coalesce_eq] at hshown
  refine ⟨_, runs, inTimeOrder_mergeSort packets, hcuts, hshown, ?_,
    pairwise_coalesce packets threshold⟩
  rw [flatMap_bytes_of_shows hshown, hcuts.flatten]

-- The two transfers are as far apart as the clock allows, which is more than it can hold.
theorem coalesce_shows_runs_farthest :
    ((⟨9223372036854775806000000, by decide⟩ : Span).millis : Int) < clockMax ∧
      ∃ sorted runs,
        InTimeOrder
            [⟨.sent, -9223372036854775808, -9223372036854775808, [1]⟩,
              ⟨.sent, 9223372036854775807, 0, [2]⟩]
            sorted ∧
          Cuts ⟨9223372036854775806000000, by decide⟩ sorted runs ∧
          List.Forall₂ Shows runs
            [⟨.sent, -9223372036854775808, -9223372036854775808, [1]⟩,
              ⟨.sent, 9223372036854775807, 0, [2]⟩] ∧
          [1, 2] = sorted.flatMap Packet.bytes := by
  have hthreshold :
      ((⟨9223372036854775806000000, by decide⟩ : Span).millis : Int) < clockMax := by decide
  obtain ⟨sorted, runs, hsorted, hcuts, hshown, hbytes, -⟩ :=
    coalesce_shows_runs
      [⟨.sent, -9223372036854775808, -9223372036854775808, [1]⟩,
        ⟨.sent, 9223372036854775807, 0, [2]⟩] hthreshold
  rw [coalesce_of_pairwise (by decide)] at hshown hbytes
  exact ⟨hthreshold, sorted, runs, hsorted, hcuts, hshown, hbytes⟩

end CallWatch.Packet

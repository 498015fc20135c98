import CallWatch.Proofs.Key.Collect
import CallWatch.Proofs.Tally.Counters

namespace CallWatch

-- Keys and their tallies in a plain list.
abbrev Roll :=
  List (Key × Tally)

namespace Roll

-- What amounts come to, key by key.
def ofList (amounts : List (Key × Tally)) : Roll :=
  Key.collect (· + ·) amounts

def total (roll : Roll) : Tally :=
  Tally.sum (roll.map (·.2))

theorem ofList_eq (amounts : List (Key × Tally)) :
    ofList amounts =
      (Key.firsts (amounts.map (·.1))).map
        fun key => (key, Tally.sum (Key.valuesOf key amounts)) :=
  Key.collect_eq _ Tally.zero_add amounts

theorem keys_ofList (amounts : List (Key × Tally)) :
    (ofList amounts).map (·.1) = Key.firsts (amounts.map (·.1)) :=
  Key.keys_collect _ amounts

theorem distinct_ofList (amounts : List (Key × Tally)) : Key.Distinct (ofList amounts) :=
  Key.distinct_collect _ amounts

theorem lookup_ofList (amounts : List (Key × Tally)) (key : Key) :
    Key.lookup (ofList amounts) key =
      if amounts.any (·.1 == key) then some (Tally.sum (Key.valuesOf key amounts)) else none :=
  Key.lookup_collect _ Tally.zero_add amounts key

theorem lookup_ofList_perm {a b : List (Key × Tally)} (h : a.Perm b) (key : Key) :
    Key.lookup (ofList a) key = Key.lookup (ofList b) key := by
  rw [lookup_ofList, lookup_ofList, h.any_eq, Tally.sum_perm (Key.valuesOf_perm h key)]

theorem total_upsert (key : Key) (amount : Tally) (roll : Roll) :
    total (Key.upsert (· + ·) key amount roll) = total roll + amount := by
  induction roll with
  | nil => rfl
  | cons entry rest ih =>
      obtain ⟨k, t⟩ := entry
      rw [Key.upsert]
      split
      · simp only [total, List.map_cons, Tally.sum_cons]
        exact Tally.add_right_comm t amount _
      · simp only [total, List.map_cons, Tally.sum_cons] at ih ⊢
        rw [ih, Tally.add_assoc]

-- A total does not depend on how amounts are spread over keys.
theorem total_ofList (amounts : List (Key × Tally)) :
    total (ofList amounts) = Tally.sum (amounts.map (·.2)) := by
  induction amounts using List.reverseRecOn with
  | nil => rfl
  | append_singleton amounts entry ih =>
      rw [ofList, Key.collect_concat, total_upsert, ← ofList, ih, List.map_append,
        List.map_singleton, Tally.sum_concat]

theorem readSum_le_flatten (c : Tally.Counter) {roll : Roll} {amounts : List (Key × Tally)}
    (h : ∀ e ∈ roll, e.2.read c ≤ Tally.readSum c (Key.valuesOf e.1 amounts)) :
    Tally.readSum c (roll.map (·.2)) ≤
      Tally.readSum c ((roll.map fun e => amounts.filter (·.1 == e.1)).flatten.map (·.2)) := by
  induction roll with
  | nil => exact Nat.le_refl _
  | cons e rest ih =>
      obtain ⟨he, hrest⟩ := List.forall_mem_cons.mp h
      rw [List.map_cons, List.map_cons, List.flatten_cons, List.map_append, Tally.readSum_append,
        Tally.readSum_cons]
      exact Nat.add_le_add he (ih hrest)

-- Entries of different keys that are each within what was recorded for their key are
-- together within all that was recorded.
theorem readSum_le_of_distinct (c : Tally.Counter) {roll : Roll} {amounts : List (Key × Tally)}
    (hd : Key.Distinct roll)
    (h : ∀ e ∈ roll, e.2.read c ≤ Tally.readSum c (Key.valuesOf e.1 amounts)) :
    Tally.readSum c (roll.map (·.2)) ≤ Tally.readSum c (amounts.map (·.2)) := by
  let parts := roll.map fun e => (e.1, amounts.filter (·.1 == e.1))
  have hparts : Key.Distinct parts := by
    rw [Key.Distinct, List.map_map]
    exact hd
  have hsub : (parts.map (·.2)).flatten.Subperm amounts := by
    apply Key.flatten_subperm hparts
    intro part hpart
    obtain ⟨e, -, rfl⟩ := List.mem_map.mp hpart
    exact List.Sublist.refl _
  rw [List.map_map] at hsub
  obtain ⟨taken, hperm, htaken⟩ := hsub
  calc Tally.readSum c (roll.map (·.2))
      ≤ Tally.readSum c ((roll.map fun e => amounts.filter (·.1 == e.1)).flatten.map (·.2)) :=
        readSum_le_flatten c h
    _ = Tally.readSum c (taken.map (·.2)) := (Tally.readSum_perm c (hperm.map _)).symm
    _ ≤ Tally.readSum c (amounts.map (·.2)) := Tally.readSum_sublist_le c (htaken.map _)

end Roll

end CallWatch

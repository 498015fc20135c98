import CallWatch.Proofs.Ledger.Replay

namespace CallWatch.Ledger

-- The ledger reads like a plain list of the recordings in force: one entry for each
-- key, under the first key recorded, in the order of these.
structure Agrees (l : Ledger) (amounts : List (Key × Tally)) : Prop where
  entries_eq : l.snapshot.toList = Roll.ofList amounts
  distinct : Key.Distinct (Roll.ofList amounts)
  keys_eq : l.snapshot.keys = Key.firsts (amounts.map (·.1))
  lookup : ∀ key, l.amountOf? key = Key.lookup (Roll.ofList amounts) key
  absent : ∀ key, l.amountOf? key = none ↔ amounts.any (·.1 == key) = false
  amount : ∀ key t, l.amountOf? key = some t → ∀ c,
    t.read c = min (Tally.readSum c (Key.valuesOf key amounts)) Count.limit
  size_eq : l.size = (Key.firsts (amounts.map (·.1))).length
  isEmpty_iff : l.isEmpty = true ↔ amounts = []
  baseline : ∀ key, l.snapshot.get? key = l.amountOf? key
  listing : (Key.listed (l.entries.map fun e => (e.key, e.amount))).Perm (Roll.ofList amounts)

namespace Keeps

variable {l : Ledger} {amounts : List (Key × Tally)}

theorem toList_snapshot (h : l.Keeps amounts) : l.snapshot.toList = Roll.ofList amounts :=
  h.sound.toList_snapshot.trans h.roll_eq

theorem amountOf?_eq (h : l.Keeps amounts) (key : Key) :
    l.amountOf? key = Key.lookup (Roll.ofList amounts) key := by
  rw [h.sound.amountOf?_eq, h.roll_eq]

theorem get?_snapshot (h : l.Keeps amounts) (key : Key) :
    l.snapshot.get? key = Key.lookup (Roll.ofList amounts) key := by
  rw [Summary.get?_eq l.valid_snapshot, h.toList_snapshot]

theorem total_snapshot (h : l.Keeps amounts) :
    l.snapshot.total = Tally.sum (amounts.map (·.2)) := by
  rw [Summary.total, h.toList_snapshot]
  exact Roll.total_ofList amounts

theorem isEmpty_iff (h : l.Keeps amounts) : l.isEmpty = true ↔ amounts = [] := by
  have hlength : (Roll.ofList amounts).length = (Key.firsts (amounts.map (·.1))).length := by
    rw [← Roll.keys_ofList, List.length_map]
  rw [isEmpty_eq, h.roll_eq, List.isEmpty_iff]
  constructor
  · intro hnil
    rw [hnil] at hlength
    cases amounts with
    | nil => rfl
    | cons entry rest => simp [Key.firsts] at hlength
  · rintro rfl
    rfl

theorem agrees (h : l.Keeps amounts) : l.Agrees amounts where
  entries_eq := h.toList_snapshot
  distinct := Roll.distinct_ofList amounts
  keys_eq := by
    rw [Summary.keys, h.toList_snapshot, Roll.keys_ofList]
  lookup := h.amountOf?_eq
  absent key := by
    rw [h.amountOf?_eq, Roll.lookup_ofList]
    by_cases hk : amounts.any (·.1 == key) <;> simp [hk]
  amount key t ht c := by
    rw [h.amountOf?_eq, Roll.lookup_ofList] at ht
    split at ht
    · rw [← Option.some.inj ht, Tally.read_sum]
    · cases ht
  size_eq := by
    rw [Ledger.size_eq, h.roll_eq, ← Roll.keys_ofList, List.length_map]
  isEmpty_iff := h.isEmpty_iff
  baseline key := by
    rw [h.get?_snapshot, h.amountOf?_eq]
  listing := by
    rw [← h.roll_eq]
    exact List.mergeSort_perm _ _

end Keeps

-- Neither the number of shards nor where keys are placed can be told from outside, and
-- recordings may come in any order as long as only amounts are asked for.
theorem replay_agrees (placement : Key.Identity → Nat) (shards : Nat) (changes : List Change) :
    (withPlacement placement shards).shards.length = max shards 1 ∧
      ((withPlacement placement shards).replay changes).Agrees (Change.lasting changes) ∧
      ∀ (otherPlacement : Key.Identity → Nat) (otherShards : Nat) (others : List Change),
        (Change.lasting others).Perm (Change.lasting changes) →
        (∀ key, ((withPlacement otherPlacement otherShards).replay others).amountOf? key =
          ((withPlacement placement shards).replay changes).amountOf? key) ∧
        ((withPlacement otherPlacement otherShards).replay others).snapshot.total =
          ((withPlacement placement shards).replay changes).snapshot.total := by
  have hkeeps := (keeps_withPlacement placement shards).replay changes
  refine ⟨List.length_replicate, hkeeps.agrees, ?_⟩
  intro otherPlacement otherShards others hperm
  have hothers := (keeps_withPlacement otherPlacement otherShards).replay others
  constructor
  · intro key
    rw [hothers.amountOf?_eq, hkeeps.amountOf?_eq]
    exact Roll.lookup_ofList_perm hperm key
  · rw [hothers.total_snapshot, hkeeps.total_snapshot]
    exact Tally.sum_perm (hperm.map _)

end CallWatch.Ledger

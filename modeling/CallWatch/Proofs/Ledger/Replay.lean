import CallWatch.Key.Listing
import CallWatch.Proofs.Ledger.Keeping

namespace CallWatch.Ledger

-- What can happen to a ledger.
inductive Change where
  | record (key : Key) (amount : Tally)
  | clear
deriving DecidableEq

def change (l : Ledger) : Change → Ledger
  | .record key amount => l.record key amount
  | .clear => l.clear

def replay (l : Ledger) (changes : List Change) : Ledger :=
  changes.foldl change l

namespace Change

def extend (amounts : List (Key × Tally)) : Change → List (Key × Tally)
  | record key amount => amounts ++ [(key, amount)]
  | clear => []

-- The recordings after the last clearing.
def lasting (changes : List Change) : List (Key × Tally) :=
  changes.foldl extend []

theorem lasting_concat (changes : List Change) (c : Change) :
    lasting (changes ++ [c]) = extend (lasting changes) c := by
  simp [lasting]

theorem lasting_append (a b : List Change) :
    lasting (a ++ b) = if .clear ∈ b then lasting b else lasting a ++ lasting b := by
  induction b using List.reverseRecOn with
  | nil => simp [lasting]
  | append_singleton b c ih =>
      rw [← List.append_assoc, lasting_concat, ih, lasting_concat]
      cases c with
      | record key amount =>
          simp only [extend, List.mem_append, List.mem_singleton, reduceCtorEq, or_false]
          split
          · rfl
          · rw [List.append_assoc]
      | clear => simp [extend]

end Change

-- The ledger holds what the recordings come to, as a plain list would hold it.
structure Keeps (l : Ledger) (amounts : List (Key × Tally)) : Prop where
  sound : l.Sound
  roll_eq : l.roll = Roll.ofList amounts

theorem keeps_withPlacement (placement : Key.Identity → Nat) (shards : Nat) :
    (withPlacement placement shards).Keeps [] := by
  have hlines : (withPlacement placement shards).lines = [] := by
    simp [withPlacement, lines]
  refine ⟨⟨?_, ?_, ?_, ?_, ?_⟩, ?_⟩
  · rw [withPlacement, List.length_replicate]
    exact Nat.le_max_right shards 1
  · intro i shard hs e he
    have hmem := List.mem_of_getElem? hs
    rw [List.eq_of_mem_replicate hmem] at he
    cases he
  · simp [hlines]
  · simp [hlines]
  · simp [hlines]
  · have hentries := entries_perm (withPlacement placement shards)
    rw [hlines] at hentries
    rw [roll, hentries.eq_nil]
    rfl

theorem lines_clear (l : Ledger) : l.clear.lines = [] := by
  simp [clear, lines]

theorem Sound.clear {l : Ledger} (h : l.Sound) : l.clear.Sound := by
  refine ⟨?_, ?_, ?_, ?_, ?_⟩
  · simpa [Ledger.clear] using h.sharded
  · intro i shard hs e he
    rw [Ledger.clear, List.getElem?_map, Option.map_eq_some_iff] at hs
    obtain ⟨old, -, rfl⟩ := hs
    cases he
  · simp [lines_clear]
  · simp [lines_clear]
  · simp [lines_clear]

namespace Keeps

variable {l : Ledger} {amounts : List (Key × Tally)}

theorem change (h : l.Keeps amounts) (c : Change) : (l.change c).Keeps (c.extend amounts) := by
  cases c with
  | record key amount =>
      refine ⟨h.sound.record key amount, ?_⟩
      rw [Change.extend, Roll.ofList, Key.collect_concat, ← Roll.ofList, ← h.roll_eq]
      exact h.sound.roll_record key amount
  | clear =>
      refine ⟨h.sound.clear, ?_⟩
      have hentries := entries_perm l.clear
      rw [lines_clear] at hentries
      rw [Ledger.change, roll, hentries.eq_nil]
      rfl

theorem replay (h : l.Keeps amounts) (changes : List Change) :
    (l.replay changes).Keeps (changes.foldl Change.extend amounts) := by
  induction changes generalizing l amounts with
  | nil => exact h
  | cons c rest ih => exact ih (h.change c)

end Keeps

theorem Sound.amountOf?_eq {l : Ledger} (h : l.Sound) (key : Key) :
    l.amountOf? key = Key.lookup l.roll key := by
  rw [amountOf?, Key.lookup, roll, List.find?_map, Option.map_map]
  congr 1
  cases hf : l.entries.find? ((·.1 == key) ∘ fun e => (e.key, e.amount)) with
  | none =>
      rw [h.find?_eq_none_iff]
      intro e he
      exact List.find?_eq_none.mp hf e (mem_entries.mpr he)
  | some e =>
      have hk := List.find?_some hf
      rw [h.find?_eq_some_iff]
      exact ⟨mem_entries.mp (List.mem_of_find?_eq_some hf), hk⟩

theorem toList_summary (l : Ledger) (keep : Key → Bool) (detail : Detail) :
    (l.summary keep detail).toList =
      Roll.ofList ((l.roll.filter (keep ·.1)).map fun e => (e.1.coarsen detail, e.2)) := by
  rw [summary, Summary.toList_ofList, roll, List.filter_map, List.map_map]
  rfl

-- In full detail nothing is merged.
theorem toList_summary_full (l : Ledger) {keep : Key → Bool} (hk : Key.Respects keep) :
    (l.summary keep .full).toList = (Roll.ofList l.roll).filter (keep ·.1) := by
  have hid : (fun e : Key × Tally => (e.1.coarsen .full, e.2)) = id := by
    funext e
    rw [Key.coarsen_full]
    rfl
  rw [toList_summary, hid, List.map_id, Roll.ofList, Key.collect_filter _ hk, ← Roll.ofList]

theorem Sound.toList_snapshot {l : Ledger} (h : l.Sound) : l.snapshot.toList = l.roll := by
  have hall : Key.Respects fun _ => true := fun _ _ _ => rfl
  rw [snapshot, l.toList_summary_full hall, Roll.ofList, Key.collect_eq_self _ h.distinct_roll,
    List.filter_eq_self.mpr fun _ _ => rfl]

theorem valid_snapshot (l : Ledger) : l.snapshot.Valid :=
  Summary.valid_ofList _

theorem size_eq (l : Ledger) : l.size = l.roll.length := by
  rw [size, roll, List.length_map]
  exact l.entries_perm.length_eq.symm

theorem isEmpty_eq (l : Ledger) : l.isEmpty = l.roll.isEmpty := by
  have hlines : l.isEmpty = l.lines.isEmpty := by
    rw [Bool.eq_iff_iff]
    simp [isEmpty, lines, List.flatten_eq_nil_iff]
  rw [hlines, roll, List.isEmpty_map, Bool.eq_iff_iff, List.isEmpty_iff, List.isEmpty_iff]
  exact ⟨fun h => (h ▸ l.entries_perm).eq_nil, fun h => (h ▸ l.entries_perm).symm.eq_nil⟩

end CallWatch.Ledger

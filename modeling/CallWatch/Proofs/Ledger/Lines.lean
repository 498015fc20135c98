import CallWatch.Ledger
import CallWatch.Proofs.Summary.Index
import Mathlib.Data.List.Nodup
import Mathlib.Data.List.Flatten

namespace CallWatch.Ledger

-- All lines, shard after shard.
def lines (l : Ledger) : List Entry :=
  l.shards.flatten

-- The ledger without its shards and numbers.
def roll (l : Ledger) : Roll :=
  l.entries.map fun e => (e.key, e.amount)

-- What recording keeps up. A line stands in the shard of its key, so that a search
-- in one shard misses none; keys and numbers do not repeat; the next number is new.
structure Sound (l : Ledger) : Prop where
  sharded : 0 < l.shards.length
  placed : ∀ (i : Nat) (shard : List Entry), l.shards[i]? = some shard →
    ∀ e ∈ shard, l.shardOf e.key = i
  distinct : (l.lines.map (·.key.identity)).Nodup
  numbered : (l.lines.map (·.number)).Nodup
  fresh : ∀ e ∈ l.lines, e.number < l.next

section Sorting

private def byNumber (a b : Entry) : Bool :=
  a.number ≤ b.number

private theorem pairwise_byNumber (es : List Entry) :
    (es.mergeSort byNumber).Pairwise fun a b => byNumber a b = true := by
  apply List.pairwise_mergeSort
  · intro a b c hab hbc
    simp only [byNumber, decide_eq_true_eq] at *
    omega
  · intro a b
    simp only [byNumber, Bool.or_eq_true, decide_eq_true_eq]
    omega

private theorem mergeSort_eq_of_perm {es fs : List Entry} (hp : es.Perm fs)
    (hn : (es.map (·.number)).Nodup) : es.mergeSort byNumber = fs.mergeSort byNumber := by
  apply List.Perm.eq_of_pairwise _ (pairwise_byNumber es) (pairwise_byNumber fs)
  · exact (List.mergeSort_perm es _).trans (hp.trans (List.mergeSort_perm fs _).symm)
  · intro a b ha hb hab hba
    have hna : a ∈ es := (List.mergeSort_perm es _).mem_iff.mp ha
    have hnb : b ∈ es := hp.mem_iff.mpr ((List.mergeSort_perm fs _).mem_iff.mp hb)
    simp only [byNumber, decide_eq_true_eq] at hab hba
    exact List.inj_on_of_nodup_map hn hna hnb (Nat.le_antisymm hab hba)

private theorem mergeSort_concat {es : List Entry} {new : Entry}
    (h : ∀ e ∈ es, e.number < new.number) :
    (es.mergeSort byNumber ++ [new]).mergeSort byNumber = es.mergeSort byNumber ++ [new] := by
  apply List.mergeSort_of_pairwise
  apply List.pairwise_append.mpr
  refine ⟨pairwise_byNumber es, List.pairwise_singleton _ _, ?_⟩
  intro a ha b hb
  have hlt := h a ((List.mergeSort_perm es _).mem_iff.mp ha)
  rw [List.mem_singleton.mp hb]
  simpa only [byNumber, decide_eq_true_eq] using Nat.le_of_lt hlt

end Sorting

theorem entries_perm (l : Ledger) : l.entries.Perm l.lines :=
  List.mergeSort_perm _ _

theorem mem_entries {l : Ledger} {e : Entry} : e ∈ l.entries ↔ e ∈ l.lines :=
  l.entries_perm.mem_iff

namespace Sound

variable {l : Ledger}

theorem eq_of_key (h : l.Sound) {e f : Entry} (he : e ∈ l.lines) (hf : f ∈ l.lines)
    (hk : e.key == f.key) : e = f :=
  List.inj_on_of_nodup_map h.distinct he hf (Key.beq_iff.mp hk)

theorem distinct_roll (h : l.Sound) : Key.Distinct l.roll := by
  have hp := (l.entries_perm.map (·.key.identity)).nodup_iff.mpr h.distinct
  simpa [Key.Distinct, roll, Function.comp_def] using hp

theorem shardOf_lt (h : l.Sound) (key : Key) : l.shardOf key < l.shards.length :=
  Nat.mod_lt _ h.sharded

theorem mem_shard_of_mem (h : l.Sound) {e : Entry} (he : e ∈ l.lines) : e ∈ l.shard e.key := by
  obtain ⟨shard, hs, hmem⟩ := List.mem_flatten.mp he
  obtain ⟨i, hi⟩ := List.mem_iff_getElem?.mp hs
  rw [Ledger.shard, h.placed i shard hi e hmem, List.getD_eq_getElem?_getD, hi]
  exact hmem

end Sound

theorem mem_lines_of_mem_shard {l : Ledger} {key : Key} {e : Entry} (he : e ∈ l.shard key) :
    e ∈ l.lines := by
  rw [Ledger.shard, List.getD_eq_getElem?_getD] at he
  cases hs : l.shards[l.shardOf key]? with
  | none => simp [hs] at he
  | some shard =>
      rw [hs] at he
      exact List.mem_flatten.mpr ⟨shard, List.mem_of_getElem? hs, he⟩

theorem shardOf_congr (l : Ledger) {a b : Key} (h : a == b) : l.shardOf a = l.shardOf b := by
  rw [shardOf, shardOf, Key.beq_iff.mp h]

theorem shard_congr (l : Ledger) {a b : Key} (h : a == b) : l.shard a = l.shard b := by
  rw [shard, shard, l.shardOf_congr h]

theorem mem_lines_of_find? {l : Ledger} {key : Key} {e : Entry} (h : l.find? key = some e) :
    e ∈ l.lines ∧ e.key == key :=
  ⟨mem_lines_of_mem_shard (List.mem_of_find?_eq_some h),
    List.find?_some (p := fun e : Entry => e.key == key) h⟩

-- A search in one shard stands for a search in all of them.
theorem Sound.find?_eq_some_iff {l : Ledger} (h : l.Sound) {key : Key} {e : Entry} :
    l.find? key = some e ↔ e ∈ l.lines ∧ e.key == key := by
  constructor
  · exact mem_lines_of_find?
  · rintro ⟨he, hk⟩
    have hshard : e ∈ l.shard key := l.shard_congr hk ▸ h.mem_shard_of_mem he
    cases hf : l.find? key with
    | none => exact absurd hk (List.find?_eq_none.mp hf e hshard)
    | some f =>
        obtain ⟨hmem, hfk⟩ := mem_lines_of_find? hf
        rw [h.eq_of_key hmem he (BEq.trans hfk (BEq.symm hk))]

theorem Sound.find?_eq_none_iff {l : Ledger} (h : l.Sound) {key : Key} :
    l.find? key = none ↔ ∀ e ∈ l.lines, ¬(e.key == key) = true := by
  constructor
  · intro hf e he hk
    rw [h.find?_eq_some_iff.mpr ⟨he, hk⟩] at hf
    cases hf
  · intro hnone
    cases hf : l.find? key with
    | none => rfl
    | some e => exact absurd (mem_lines_of_find? hf).2 (hnone e (mem_lines_of_find? hf).1)

-- A line with a number above all others comes last, wherever it was put.
theorem Sound.entries_of_perm {l after : Ledger} (h : l.Sound) {new : Entry}
    (hnew : ∀ e ∈ l.lines, e.number < new.number)
    (hperm : after.lines.Perm (l.lines ++ [new])) : after.entries = l.entries ++ [new] := by
  have hp : (l.entries ++ [new]).Perm after.lines :=
    (l.entries_perm.append_right _).trans hperm.symm
  have hn : ((l.entries ++ [new]).map (·.number)).Nodup := by
    rw [((l.entries_perm.append_right [new]).map _).nodup_iff, List.map_append, List.nodup_append]
    refine ⟨h.numbered, List.nodup_singleton _, ?_⟩
    rintro a ha b hb rfl
    obtain ⟨e, he, hk⟩ := List.mem_map.mp ha
    have hlt := hnew e he
    rw [List.map_singleton, List.mem_singleton] at hb
    omega
  calc
    after.entries = after.lines.mergeSort byNumber := rfl
    _ = (l.entries ++ [new]).mergeSort byNumber := (mergeSort_eq_of_perm hp hn).symm
    _ = l.entries ++ [new] := mergeSort_concat hnew

theorem any_roll (l : Ledger) (key : Key) :
    l.roll.any (·.1 == key) = l.lines.any (·.key == key) := by
  rw [roll, List.any_map]
  exact l.entries_perm.any_eq

end CallWatch.Ledger

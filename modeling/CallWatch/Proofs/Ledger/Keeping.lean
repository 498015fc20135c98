import CallWatch.Proofs.Ledger.Lines

namespace CallWatch.Ledger

variable {l : Ledger}

section AddTo

variable (key : Key) (amount : Tally)

theorem addTo_eq_self {es : List Entry} (h : ∀ e ∈ es, ¬(e.key == key) = true) :
    addTo key amount es = es := by
  refine (List.map_congr_left fun e he => ?_).trans (List.map_id es)
  simp only [h e he, Bool.false_eq_true, if_false, id_eq]

theorem map_identity_addTo (es : List Entry) :
    (addTo key amount es).map (·.key.identity) = es.map (·.key.identity) := by
  rw [addTo, List.map_map]
  apply List.map_congr_left
  intro e _
  rw [Function.comp_apply]
  split <;> rfl

theorem map_number_addTo (es : List Entry) :
    (addTo key amount es).map (·.number) = es.map (·.number) := by
  rw [addTo, List.map_map]
  apply List.map_congr_left
  intro e _
  rw [Function.comp_apply]
  split <;> rfl

theorem exists_of_mem_addTo {es : List Entry} {e : Entry} (h : e ∈ addTo key amount es) :
    ∃ f ∈ es, e.key = f.key ∧ e.number = f.number := by
  obtain ⟨f, hf, rfl⟩ := List.mem_map.mp h
  refine ⟨f, hf, ?_⟩
  split <;> exact ⟨rfl, rfl⟩

-- Lines of one key stand in one shard only, so that the others may be gone through
-- as well.
theorem Sound.modify_addTo (h : l.Sound) :
    l.shards.modify (l.shardOf key) (addTo key amount) = l.shards.map (addTo key amount) := by
  apply List.ext_getElem?
  intro i
  rw [List.getElem?_modify, List.getElem?_map, Option.map_eq_map]
  by_cases hi : l.shardOf key = i
  · simp [hi]
  · simp only [if_neg hi]
    cases hs : l.shards[i]? with
    | none => rfl
    | some shard =>
        have hself : addTo key amount shard = shard := by
          apply addTo_eq_self
          intro e he hk
          exact hi ((l.shardOf_congr (BEq.symm hk)).trans (h.placed i shard hs e he))
        simp [hself]

end AddTo

-- The line that a new key gets.
def newLine (l : Ledger) (key : Key) (amount : Tally) : Entry :=
  ⟨key, l.next, amount⟩

theorem record_of_find?_some {key : Key} {e : Entry} (amount : Tally)
    (hf : l.find? key = some e) :
    l.record key amount =
      { l with shards := l.shards.modify (l.shardOf key) (addTo key amount) } := by
  rw [record, hf]

theorem record_of_find?_none {key : Key} (amount : Tally) (hf : l.find? key = none) :
    l.record key amount =
      { l with
        shards := l.shards.modify (l.shardOf key) (· ++ [l.newLine key amount])
        next := l.next + 1 } := by
  rw [record, hf]
  rfl

theorem Sound.lines_record_present (h : l.Sound) {key : Key} {e : Entry} (amount : Tally)
    (hf : l.find? key = some e) :
    (l.record key amount).lines = addTo key amount l.lines := by
  rw [record_of_find?_some amount hf, lines, h.modify_addTo, lines, addTo, List.map_flatten]
  rfl

private theorem flatten_modify_concat {shards : List (List Entry)} {i : Nat} (e : Entry)
    (h : i < shards.length) :
    (shards.modify i (· ++ [e])).flatten.Perm (shards.flatten ++ [e]) := by
  induction shards generalizing i with
  | nil => simp at h
  | cons shard rest ih =>
      cases i with
      | zero =>
          rw [List.modify_zero_cons, List.flatten_cons, List.flatten_cons, List.append_assoc,
            List.append_assoc]
          exact List.perm_append_comm.append_left shard
      | succ i =>
          rw [List.modify_succ_cons, List.flatten_cons, List.flatten_cons, List.append_assoc]
          exact (ih (Nat.lt_of_succ_lt_succ h)).append_left shard

theorem Sound.lines_record_absent (h : l.Sound) {key : Key} (amount : Tally)
    (hf : l.find? key = none) :
    (l.record key amount).lines.Perm (l.lines ++ [l.newLine key amount]) := by
  rw [record_of_find?_none amount hf]
  exact flatten_modify_concat _ (h.shardOf_lt key)

theorem shardOf_record (l : Ledger) (key other : Key) (amount : Tally) :
    (l.record key amount).shardOf other = l.shardOf other := by
  unfold record
  split <;> simp [shardOf]

theorem length_shards_record (l : Ledger) (key : Key) (amount : Tally) :
    (l.record key amount).shards.length = l.shards.length := by
  unfold record
  split <;> simp

theorem Sound.placed_record (h : l.Sound) (key : Key) (amount : Tally) (i : Nat)
    (shard : List Entry) (hs : (l.record key amount).shards[i]? = some shard) :
    ∀ e ∈ shard, (l.record key amount).shardOf e.key = i := by
  intro e he
  rw [shardOf_record]
  cases hf : l.find? key with
  | some _ =>
      rw [record_of_find?_some amount hf, h.modify_addTo, List.getElem?_map,
        Option.map_eq_some_iff] at hs
      obtain ⟨old, hold, rfl⟩ := hs
      obtain ⟨f, hmem, hk, -⟩ := exists_of_mem_addTo key amount he
      rw [hk]
      exact h.placed i old hold f hmem
  | none =>
      rw [record_of_find?_none amount hf, List.getElem?_modify,
        Option.map_eq_map, Option.map_eq_some_iff] at hs
      obtain ⟨old, hold, rfl⟩ := hs
      by_cases hi : l.shardOf key = i
      · rw [if_pos hi, List.mem_append, List.mem_singleton] at he
        rcases he with he | rfl
        · exact h.placed i old hold e he
        · exact hi
      · rw [if_neg hi] at he
        exact h.placed i old hold e he

theorem Sound.record (h : l.Sound) (key : Key) (amount : Tally) :
    (l.record key amount).Sound := by
  cases hf : l.find? key with
  | some _ =>
      have hlines := h.lines_record_present amount hf
      constructor
      · exact (l.length_shards_record key amount).symm ▸ h.sharded
      · exact h.placed_record key amount
      · rw [hlines, map_identity_addTo]
        exact h.distinct
      · rw [hlines, map_number_addTo]
        exact h.numbered
      · intro e he
        rw [hlines] at he
        obtain ⟨f, hmem, -, hn⟩ := exists_of_mem_addTo key amount he
        rw [hn, record_of_find?_some amount hf]
        exact h.fresh f hmem
  | none =>
      have hperm := h.lines_record_absent amount hf
      constructor
      · exact (l.length_shards_record key amount).symm ▸ h.sharded
      · exact h.placed_record key amount
      · rw [(hperm.map _).nodup_iff, List.map_append, List.nodup_append]
        refine ⟨h.distinct, List.nodup_singleton _, ?_⟩
        rintro a ha b hb rfl
        obtain ⟨e, he, hk⟩ := List.mem_map.mp ha
        rw [List.map_singleton, List.mem_singleton] at hb
        exact h.find?_eq_none_iff.mp hf e he (Key.beq_of_identity_eq (hk.trans hb))
      · rw [(hperm.map _).nodup_iff, List.map_append, List.nodup_append]
        refine ⟨h.numbered, List.nodup_singleton _, ?_⟩
        rintro a ha b hb rfl
        obtain ⟨e, he, hn⟩ := List.mem_map.mp ha
        rw [List.map_singleton, List.mem_singleton] at hb
        have hlt := h.fresh e he
        simp only [newLine] at hb
        omega
      · intro e he
        rw [hperm.mem_iff, List.mem_append, List.mem_singleton] at he
        rw [record_of_find?_none amount hf]
        rcases he with he | rfl
        · exact Nat.lt_succ_of_lt (h.fresh e he)
        · exact Nat.lt_succ_self _

theorem Sound.roll_record (h : l.Sound) (key : Key) (amount : Tally) :
    (l.record key amount).roll = Key.upsert (· + ·) key amount l.roll := by
  cases hf : l.find? key with
  | some e =>
      obtain ⟨he, hk⟩ := h.find?_eq_some_iff.mp hf
      have hany : l.roll.any (·.1 == key) = true := by
        rw [any_roll]
        exact List.any_eq_true.mpr ⟨e, he, hk⟩
      have hentries : (l.record key amount).entries = addTo key amount l.entries := by
        have hlines := h.lines_record_present amount hf
        rw [lines] at hlines
        rw [entries, hlines, addTo, addTo, entries, List.map_mergeSort]
        · rfl
        · intro a _ b _
          split <;> split <;> rfl
      rw [Key.upsert_of_any _ amount h.distinct_roll hany, roll, hentries, roll, addTo,
        List.map_map, List.map_map]
      apply List.map_congr_left
      intro f _
      simp only [Function.comp_apply]
      split <;> rfl
  | none =>
      have hnone := h.find?_eq_none_iff.mp hf
      have hany : l.roll.any (·.1 == key) = false := by
        rw [any_roll]
        exact List.any_eq_false.mpr hnone
      rw [Key.upsert_of_not_any _ amount hany, roll,
        h.entries_of_perm h.fresh (h.lines_record_absent amount hf), List.map_append]
      rfl

end CallWatch.Ledger

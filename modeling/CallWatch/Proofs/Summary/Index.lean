import CallWatch.Proofs.Summary.Roll
import CallWatch.Summary

namespace CallWatch.Roll

-- Where the first entry of a key stands.
def placeOf? (roll : Roll) (key : Key) : Option Nat :=
  roll.findIdx? (·.1 == key)

theorem placeOf?_congr {a b : Key} (h : a == b) (roll : Roll) :
    roll.placeOf? a = roll.placeOf? b := by
  simp only [placeOf?, BEq.congr_right h]

theorem placeOf?_eq_none_iff {roll : Roll} {key : Key} :
    roll.placeOf? key = none ↔ roll.any (·.1 == key) = false := by
  rw [placeOf?, List.findIdx?_eq_none_iff, List.any_eq_false]
  constructor <;> intro h e he
  · simp only [h e he, Bool.false_eq_true, not_false_eq_true]
  · exact Bool.of_not_eq_true (h e he)

theorem lookup_eq_bind (roll : Roll) (key : Key) :
    Key.lookup roll key = ((roll.placeOf? key).bind (roll[·]?)).map (·.2) := by
  rw [Key.lookup, placeOf?, List.find?_eq_bind_findIdx?_getElem?]

theorem upsert_eq_modify {roll : Roll} {key : Key} {i : Nat} (amount : Tally)
    (h : roll.placeOf? key = some i) :
    Key.upsert (· + ·) key amount roll = roll.modify i fun (k, t) => (k, t + amount) := by
  induction roll generalizing i with
  | nil => simp [placeOf?] at h
  | cons entry rest ih =>
      obtain ⟨k, t⟩ := entry
      rw [placeOf?, List.findIdx?_cons] at h
      by_cases hk : k == key
      · simp only [hk, if_true, Option.some.injEq] at h
        subst h
        simp only [Key.upsert, hk, if_true, List.modify_zero_cons]
      · simp only [hk, Bool.false_eq_true, if_false, Option.map_eq_some_iff] at h
        obtain ⟨j, hj, rfl⟩ := h
        simp only [Key.upsert, hk, Bool.false_eq_true, if_false, List.modify_succ_cons, ih hj]

-- An amount that is added moves no entry.
theorem placeOf?_modify (roll : Roll) (key : Key) (i : Nat) (amount : Tally) :
    placeOf? (roll.modify i fun (k, t) => (k, t + amount)) key = roll.placeOf? key := by
  induction roll generalizing i with
  | nil => simp [placeOf?]
  | cons entry rest ih =>
      cases i with
      | zero => simp [placeOf?, List.findIdx?_cons]
      | succ i =>
          have hrest := ih i
          simp only [placeOf?] at hrest
          simp only [placeOf?, List.modify_succ_cons, List.findIdx?_cons, hrest]

end CallWatch.Roll

namespace CallWatch.Summary

-- The index knows every key of the entries by its place, and no other key.
def Valid (s : Summary) : Prop :=
  ∀ key, s.index[key]? = Roll.placeOf? s.toList key

theorem valid_empty : empty.Valid := by
  intro key
  simp [empty, toList, Roll.placeOf?]

theorem toList_merge {s : Summary} (h : s.Valid) (key : Key) (amount : Tally) :
    (s.merge key amount).toList = Key.upsert (· + ·) key amount s.toList := by
  unfold merge
  cases hi : s.index[key]? with
  | some i =>
      rw [Roll.upsert_eq_modify amount ((h key).symm.trans hi)]
      exact Array.toList_modify
  | none =>
      rw [Key.upsert_of_not_any _ amount (Roll.placeOf?_eq_none_iff.mp ((h key).symm.trans hi))]
      exact Array.toList_push

theorem Valid.merge {s : Summary} (h : s.Valid) (key : Key) (amount : Tally) :
    (s.merge key amount).Valid := by
  intro other
  rw [toList_merge h]
  unfold Summary.merge
  cases hi : s.index[key]? with
  | some i =>
      rw [Roll.upsert_eq_modify amount ((h key).symm.trans hi), Roll.placeOf?_modify]
      exact h other
  | none =>
      have hnone := (h key).symm.trans hi
      rw [Key.upsert_of_not_any _ amount (Roll.placeOf?_eq_none_iff.mp hnone)]
      simp only [Std.HashMap.getElem?_insert, h other, Roll.placeOf?, List.findIdx?_append]
      by_cases hk : key == other
      · rw [← Roll.placeOf?, ← Roll.placeOf?_congr hk, hnone]
        simp [hk, toList]
      · simp [hk]

theorem mergeAll_cons (s : Summary) (key : Key) (amount : Tally)
    (rest : List (Key × Tally)) :
    s.mergeAll ((key, amount) :: rest) = (s.merge key amount).mergeAll rest := rfl

theorem Valid.mergeAll {s : Summary} (h : s.Valid) (amounts : List (Key × Tally)) :
    (s.mergeAll amounts).Valid := by
  induction amounts generalizing s with
  | nil => exact h
  | cons entry rest ih => exact ih (h.merge entry.1 entry.2)

theorem toList_mergeAll {s : Summary} (h : s.Valid) (amounts : List (Key × Tally)) :
    (s.mergeAll amounts).toList =
      amounts.foldl (fun roll (key, amount) => Key.upsert (· + ·) key amount roll) s.toList := by
  induction amounts generalizing s with
  | nil => rfl
  | cons entry rest ih =>
      rw [mergeAll_cons s entry.1 entry.2, ih (h.merge entry.1 entry.2), toList_merge h]
      rfl

theorem valid_ofList (amounts : List (Key × Tally)) : (ofList amounts).Valid :=
  valid_empty.mergeAll amounts

theorem toList_ofList (amounts : List (Key × Tally)) :
    (ofList amounts).toList = Roll.ofList amounts :=
  toList_mergeAll valid_empty amounts

theorem get?_eq {s : Summary} (h : s.Valid) (key : Key) :
    s.get? key = Key.lookup s.toList key := by
  rw [get?, h key, Roll.lookup_eq_bind]
  simp only [toList, Array.getElem?_toList]

theorem total_ofList (amounts : List (Key × Tally)) :
    (ofList amounts).total = Tally.sum (amounts.map (·.2)) := by
  rw [total, toList_ofList]
  exact Roll.total_ofList amounts

end CallWatch.Summary

import CallWatch.Proofs.Summary.Index

namespace CallWatch

-- Where keys are distinct, the first place of a key is its only one.
theorem Roll.placeOf?_eq_some_iff {roll : Roll} (hd : Key.Distinct roll) {key : Key} {i : Nat} :
    roll.placeOf? key = some i ↔ ∃ e, roll[i]? = some e ∧ e.1 == key := by
  rw [placeOf?, List.findIdx?_eq_some_iff_getElem]
  constructor
  · rintro ⟨hi, hkey, -⟩
    exact ⟨roll[i], List.getElem?_eq_getElem hi, hkey⟩
  · rintro ⟨e, he, hkey⟩
    obtain ⟨hi, hentry⟩ := List.getElem?_eq_some_iff.mp he
    refine ⟨hi, by rwa [hentry], fun j hji hj => ?_⟩
    have hsame : (roll.map (·.1.identity))[i]? = (roll.map (·.1.identity))[j]? := by
      rw [List.getElem?_map, List.getElem?_map, he, List.getElem?_eq_getElem (by omega)]
      exact congrArg some ((Key.beq_iff.mp hkey).trans (Key.beq_iff.mp hj).symm)
    have : i = j := (List.getElem?_inj (by simpa using hi) hd).mp hsame
    omega

namespace Summary

-- What a summary shows of the amounts that were added to it. Its index knows the keys of
-- its entries, each by the place of its entry, so that no place it names is out of bounds.
structure Represents (s : Summary) (amounts : List (Key × Tally)) : Prop where
  keys_eq : s.keys = Key.firsts (amounts.map (·.1))
  distinct : (s.keys.map Key.identity).Nodup
  index_iff : ∀ (key : Key) (i : Nat),
    s.index[key]? = some i ↔ ∃ e, s.entries[i]? = some e ∧ e.1 == key
  lt_size : ∀ (key : Key) (i : Nat), s.index[key]? = some i → i < s.entries.size
  amount_iff : ∀ key t, s.get? key = some t ↔ (∃ e ∈ amounts, e.1 == key) ∧
    ∀ c, t.read c = min (Tally.readSum c (Key.valuesOf key amounts)) Count.limit
  absent_iff : ∀ key, s.get? key = none ↔ ∀ e ∈ amounts, ¬ e.1 == key
  total_eq : ∀ c, s.total.read c = min (Tally.readSum c (amounts.map (·.2))) Count.limit

variable (amounts : List (Key × Tally))

theorem keys_ofList : (ofList amounts).keys = Key.firsts (amounts.map (·.1)) := by
  rw [keys, toList_ofList, Roll.keys_ofList]

theorem index_ofList_eq_some_iff (key : Key) (i : Nat) :
    (ofList amounts).index[key]? = some i ↔
      ∃ e, (ofList amounts).entries[i]? = some e ∧ e.1 == key := by
  have hd : Key.Distinct (ofList amounts).toList := by
    rw [toList_ofList]
    exact Roll.distinct_ofList amounts
  rw [valid_ofList amounts key, Roll.placeOf?_eq_some_iff hd]
  simp only [toList, Array.getElem?_toList]

theorem get?_ofList (key : Key) :
    (ofList amounts).get? key =
      if amounts.any (·.1 == key) then some (Tally.sum (Key.valuesOf key amounts)) else none := by
  rw [get?_eq (valid_ofList amounts), toList_ofList, Roll.lookup_ofList]

theorem get?_ofList_eq_some_iff (key : Key) (t : Tally) :
    (ofList amounts).get? key = some t ↔ (∃ e ∈ amounts, e.1 == key) ∧
      ∀ c, t.read c = min (Tally.readSum c (Key.valuesOf key amounts)) Count.limit := by
  have hreads : Tally.sum (Key.valuesOf key amounts) = t ↔
      ∀ c, t.read c = min (Tally.readSum c (Key.valuesOf key amounts)) Count.limit := by
    constructor
    · rintro rfl c
      exact Tally.read_sum c _
    · exact fun h => Tally.ext_read fun c => (Tally.read_sum c _).trans (h c).symm
  rw [get?_ofList, ← List.any_eq_true, ← hreads]
  cases amounts.any (·.1 == key) <;> simp

theorem get?_ofList_eq_none_iff (key : Key) :
    (ofList amounts).get? key = none ↔ ∀ e ∈ amounts, ¬ e.1 == key := by
  rw [get?_ofList, ← List.any_eq_false]
  cases amounts.any (·.1 == key) <;> simp

-- This holds of every sequence of amounts, and so after each of them.
theorem represents_mergeAll : (empty.mergeAll amounts).Represents amounts := by
  rw [← ofList]
  refine ⟨keys_ofList amounts, ?_, index_ofList_eq_some_iff amounts, ?_,
    get?_ofList_eq_some_iff amounts, get?_ofList_eq_none_iff amounts, ?_⟩
  · rw [keys_ofList]
    exact Key.nodup_firsts _
  · intro key i hindex
    obtain ⟨e, he, -⟩ := (index_ofList_eq_some_iff amounts key i).mp hindex
    exact (Array.getElem?_eq_some_iff.mp he).1
  · intro c
    rw [total_ofList, Tally.read_sum]

end Summary

end CallWatch

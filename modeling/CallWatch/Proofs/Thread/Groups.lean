import CallWatch.Proofs.Text.Spans
import CallWatch.Thread

namespace CallWatch.Thread

-- A name in three parts. Separators and number may be empty, and the group ends where the
-- first of them starts: a digit at its end is its own only if separators follow.
structure Parts (name group separators number : List Char) : Prop where
  name_eq : name = group ++ (separators ++ number)
  of_separators : ∀ c ∈ separators, isSeparator c
  of_number : ∀ c ∈ number, c.isDigit
  no_separator : ∀ c ∈ group.getLast?, isSeparator c = false
  no_digit : separators = [] → ∀ c ∈ group.getLast?, c.isDigit = false

theorem isDigit_eq_false {c : Char} (h : isSeparator c) : c.isDigit = false := by
  simp only [isSeparator, Bool.or_eq_true, beq_iff_eq] at h
  rcases h with ((rfl | rfl) | rfl) | rfl <;> rfl

theorem Parts.isDigit_getLast? {name group separators number : List Char}
    (h : Parts name group separators number) :
    ∀ c ∈ (group ++ separators).getLast?, c.isDigit = false := by
  intro c hc
  rcases separators.eq_nil_or_concat with hnil | ⟨front, last, hconcat⟩
  · rw [hnil, List.append_nil] at hc
    exact h.no_digit hnil c hc
  · rw [hconcat, List.concat_eq_append, ← List.append_assoc, List.getLast?_concat] at hc
    obtain rfl := Option.some.inj hc
    exact isDigit_eq_false (h.of_separators last (by simp [hconcat]))

-- The two cuts that find a group, one after the other, leave the group of exactly one way to
-- take the name apart.
theorem exists_parts_iff {name group : List Char} :
    (∃ separators number, Parts name group separators number) ↔
      Text.dropEndWhile isSeparator (Text.dropEndWhile Char.isDigit name) = group := by
  constructor
  · rintro ⟨separators, number, h⟩
    have hstem : Text.dropEndWhile Char.isDigit name = group ++ separators :=
      Text.dropEndWhile_eq_iff.mpr
        ⟨number, by rw [h.name_eq, List.append_assoc], h.of_number, h.isDigit_getLast?⟩
    rw [hstem]
    exact Text.dropEndWhile_eq_iff.mpr ⟨separators, rfl, h.of_separators, h.no_separator⟩
  · intro h
    obtain ⟨number, hname, hnumber, hdigit⟩ := Text.dropEndWhile_eq_iff.mp
      (rfl : Text.dropEndWhile Char.isDigit name = Text.dropEndWhile Char.isDigit name)
    obtain ⟨separators, hstem, hseparators, hseparator⟩ := Text.dropEndWhile_eq_iff.mp h
    refine ⟨separators, number, ?_, hseparators, hnumber, hseparator, ?_⟩
    · rw [← List.append_assoc, ← hstem]
      exact hname
    · rintro rfl
      rwa [hstem, List.append_nil] at hdigit

theorem groupOf_eq_some_iff {name group : String} :
    groupOf name = some group ↔
      group ≠ "" ∧ ∃ separators number, Parts name.toList group.toList separators number := by
  rw [exists_parts_iff, groupOf]
  split
  · rename_i hnil
    rw [hnil, eq_comm (a := []), String.toList_eq_nil_iff]
    simp
  · rename_i cs hne
    rw [Option.some.injEq, ← String.toList_inj, String.toList_ofList]
    constructor
    · intro h
      exact ⟨fun hempty => hne (h.trans (String.toList_eq_nil_iff.mpr hempty)), h⟩
    · exact fun h => h.2

theorem groupOf_eq_none_iff {name : String} :
    groupOf name = none ↔ ∃ separators number, Parts name.toList [] separators number := by
  rw [exists_parts_iff, groupOf]
  split
  · rename_i hnil
    simp [hnil]
  · rename_i cs hne
    simpa using hne

-- With no group in front nothing is asked of where it ends.
theorem parts_nil_iff {name separators number : List Char} :
    Parts name [] separators number ↔
      name = separators ++ number ∧ (∀ c ∈ separators, isSeparator c) ∧
        ∀ c ∈ number, c.isDigit := by
  constructor
  · intro h
    exact ⟨h.name_eq, h.of_separators, h.of_number⟩
  · rintro ⟨hname, hseparators, hnumber⟩
    refine ⟨hname, hseparators, hnumber, ?_, fun _ => ?_⟩ <;> intro c hc <;> cases hc

theorem group_named (id : Nat) (name : String) : (named id (some name)).group = groupOf name := rfl

-- A name belongs to the group that is left of it when a worker number and what sets it off
-- are taken away, and workers whose names differ in nothing else are in one group.
theorem groupOf_strips_number (name : String) :
    (∀ group, groupOf name = some group ↔
      group ≠ "" ∧ ∃ separators number, Parts name.toList group.toList separators number) ∧
    (groupOf name = none ↔
      ∃ separators number, name.toList = separators ++ number ∧
        (∀ c ∈ separators, isSeparator c) ∧ ∀ c ∈ number, c.isDigit) ∧
    ∀ (other group : String) (separators number otherSeparators otherNumber : List Char),
      group ≠ "" → Parts name.toList group.toList separators number →
      Parts other.toList group.toList otherSeparators otherNumber →
      ∀ id otherId, (named id (some name)).group = some group ∧
        (named otherId (some other)).group = some group := by
  refine ⟨fun group => groupOf_eq_some_iff, ?_, ?_⟩
  · rw [groupOf_eq_none_iff]
    simp only [parts_nil_iff]
  · intro other group separators number otherSeparators otherNumber hne hname hother id otherId
    rw [group_named, group_named]
    exact ⟨groupOf_eq_some_iff.mpr ⟨hne, separators, number, hname⟩,
      groupOf_eq_some_iff.mpr ⟨hne, otherSeparators, otherNumber, hother⟩⟩

theorem groupOf_strips_number_behind_digits :
    "io 2" ≠ "" ∧ Parts "io 2-#07".toList "io 2".toList "-#".toList "07".toList ∧
      Parts "io 2_".toList "io 2".toList "_".toList [] ∧
      (named 3 (some "io 2-#07")).group = some "io 2" ∧
      (named 4 (some "io 2_")).group = some "io 2" := by
  have hname : Parts "io 2-#07".toList "io 2".toList "-#".toList "07".toList :=
    ⟨by decide, by simp [isSeparator], by simp, by simp [isSeparator], by simp⟩
  have hother : Parts "io 2_".toList "io 2".toList "_".toList [] :=
    ⟨by decide, by simp [isSeparator], by simp, by simp [isSeparator], by simp⟩
  have hne : "io 2" ≠ "" := by decide
  obtain ⟨-, -, hgroups⟩ := groupOf_strips_number "io 2-#07"
  exact ⟨hne, hname, hother, hgroups "io 2_" "io 2" _ _ _ _ hne hname hother 3 4⟩

end CallWatch.Thread

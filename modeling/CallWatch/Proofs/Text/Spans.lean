import CallWatch.Text.Blank
import Mathlib.Data.List.TakeWhile

namespace CallWatch.Text

variable {α : Type} {p : α → Bool} {l front rest : List α}

-- A list is cut in one place only if its front satisfies `p` throughout and what follows
-- does not start with another member that does.
theorem takeWhile_dropWhile_eq_iff :
    l.takeWhile p = front ∧ l.dropWhile p = rest ↔
      l = front ++ rest ∧ (∀ a ∈ front, p a) ∧ ∀ a ∈ rest.head?, p a = false := by
  constructor
  · rintro ⟨rfl, rfl⟩
    refine ⟨List.takeWhile_append_dropWhile.symm, fun a ha => List.mem_takeWhile_imp ha, ?_⟩
    intro a ha
    have hhead := List.head?_dropWhile_not p l
    rwa [Option.mem_def.mp ha] at hhead
  · rintro ⟨rfl, hfront, hrest⟩
    rw [List.takeWhile_append_of_pos hfront, List.dropWhile_append_of_pos hfront]
    cases rest with
    | nil => exact ⟨List.append_nil front, rfl⟩
    | cons a rest =>
        have ha : p a = false := hrest a rfl
        rw [List.takeWhile_cons_of_neg (by simp [ha]), List.dropWhile_cons_of_neg (by simp [ha]),
          List.append_nil]
        exact ⟨rfl, rfl⟩

theorem dropWhile_eq_iff :
    l.dropWhile p = rest ↔
      ∃ front, l = front ++ rest ∧ (∀ a ∈ front, p a) ∧ ∀ a ∈ rest.head?, p a = false := by
  simp only [← takeWhile_dropWhile_eq_iff, exists_eq_left']

-- The same seen from the end.
theorem dropEndWhile_eq_iff :
    dropEndWhile p l = front ↔
      ∃ back, l = front ++ back ∧ (∀ a ∈ back, p a) ∧ ∀ a ∈ front.getLast?, p a = false := by
  rw [dropEndWhile, List.reverse_eq_iff, dropWhile_eq_iff, List.head?_reverse]
  constructor
  · rintro ⟨back, hback, hall, hlast⟩
    refine ⟨back.reverse, List.reverse_inj.mp ?_, fun a ha => hall a (List.mem_reverse.mp ha),
      hlast⟩
    rw [hback, List.reverse_append, List.reverse_reverse]
  · rintro ⟨back, rfl, hall, hlast⟩
    exact ⟨back.reverse, List.reverse_append, fun a ha => hall a (List.mem_reverse.mp ha), hlast⟩

end CallWatch.Text

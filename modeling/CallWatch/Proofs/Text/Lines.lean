import CallWatch.Text.Lines

namespace CallWatch.Text

-- A text and its lines. A line feed ends a line, alone or with the carriage return in front
-- of it, and the last line may do without. Any other carriage return belongs to its line.
inductive Lined : List Char → List (List Char) → Prop where
  | nil : Lined [] []
  | unfinished {line} : line ≠ [] → '\n' ∉ line → Lined line [line]
  | feed {line rest more} : '\n' ∉ line → line.getLast? ≠ some '\r' → Lined rest more →
      Lined (line ++ '\n' :: rest) (line :: more)
  | returned {line rest more} : '\n' ∉ line → Lined rest more →
      Lined (line ++ '\r' :: '\n' :: rest) (line :: more)

theorem lines_singleton {c : Char} (hfeed : c ≠ '\n') : lines [c] = [[c]] := by
  rw [lines]
  · rfl
  · exact hfeed
  · rintro rest - hrest
    cases hrest

variable {line rest : List Char} {more : List (List Char)}

-- A character in front of a line lengthens it.
theorem lines_cons {c : Char} (hfeed : c ≠ '\n')
    (hreturn : c = '\r' → rest.head? ≠ some '\n') (h : lines rest = line :: more) :
    lines (c :: rest) = (c :: line) :: more := by
  rw [lines, h]
  · exact hfeed
  · rintro behind rfl rfl
    exact hreturn rfl rfl

-- So does a text without a line feed, unless its end and the feed behind it go together.
theorem lines_append {front : List Char} (hfeed : '\n' ∉ front)
    (hreturn : front.getLast? = some '\r' → rest.head? ≠ some '\n')
    (h : lines rest = line :: more) : lines (front ++ rest) = (front ++ line) :: more := by
  induction front with
  | nil => exact h
  | cons c front ih =>
      obtain ⟨hc, hfront⟩ : '\n' ≠ c ∧ '\n' ∉ front := by simpa using hfeed
      cases front with
      | nil =>
          apply lines_cons hc.symm _ h
          rintro rfl
          exact hreturn rfl
      | cons d front =>
          rw [List.getLast?_cons_cons] at hreturn
          have hd : '\n' ≠ d := fun hd => hfront (hd ▸ List.mem_cons_self)
          apply lines_cons hc.symm _ (ih hfront hreturn)
          rintro -
          rw [List.cons_append, List.head?_cons, ne_eq, Option.some.injEq]
          exact hd.symm

theorem Lined.lines_eq {text : List Char} {ls : List (List Char)} (h : Lined text ls) :
    lines text = ls := by
  induction h with
  | nil => rfl
  | @unfinished line hne hfeed =>
      obtain ⟨front, c, rfl⟩ := (List.eq_nil_or_concat line).resolve_left hne
      rw [List.concat_eq_append] at hfeed ⊢
      obtain ⟨hfront, hc⟩ : '\n' ∉ front ∧ '\n' ≠ c := by simpa using hfeed
      apply lines_append hfront _ (lines_singleton hc.symm)
      simpa using fun _ => hc.symm
  | @feed line rest more hfeed hreturn _ ih =>
      have hempty : lines ('\n' :: rest) = [] :: more := by rw [lines, ih]
      rw [lines_append hfeed (fun h => absurd h hreturn) hempty, List.append_nil]
  | @returned line rest more hfeed _ ih =>
      have hempty : lines ('\r' :: '\n' :: rest) = [] :: more := by rw [lines, ih]
      rw [lines_append hfeed (fun _ => by simp) hempty, List.append_nil]

theorem Lined.eq_nil {text : List Char} (h : Lined text []) : text = [] := by
  cases h
  rfl

theorem Lined.cons {c : Char} (hfeed : c ≠ '\n') (hreturn : c = '\r' → rest.head? ≠ some '\n')
    (h : Lined rest (line :: more)) : Lined (c :: rest) ((c :: line) :: more) := by
  cases h with
  | unfinished hne hline => exact .unfinished (List.cons_ne_nil c _) (by simp [hline, hfeed.symm])
  | @feed _ behind _ hline hlast hmore =>
      refine @Lined.feed (c :: line) _ _ (by simp [hline, hfeed.symm]) ?_ hmore
      cases line with
      | nil => simpa using fun h => hreturn h rfl
      | cons d line => rwa [List.getLast?_cons_cons]
  | returned hline hmore =>
      exact @Lined.returned (c :: line) _ _ (by simp [hline, hfeed.symm]) hmore

theorem lined_lines (text : List Char) : Lined text (lines text) := by
  fun_induction lines text with
  | case1 => exact .nil
  | case2 rest ih => exact @Lined.feed [] _ _ (by simp) (by simp) ih
  | case3 rest ih => exact @Lined.returned [] _ _ (by simp) ih
  | case4 c rest hfeed hreturn hnil ih =>
      rw [hnil] at ih
      rw [ih.eq_nil]
      exact .unfinished (List.cons_ne_nil c []) (by simpa using Ne.symm hfeed)
  | case5 c rest hfeed hreturn line more hlines ih =>
      rw [hlines] at ih
      refine ih.cons hfeed fun hc hhead => ?_
      obtain ⟨behind, rfl⟩ := List.head?_eq_some_iff.mp hhead
      exact hreturn behind hc rfl

theorem lined_iff {text : List Char} {ls : List (List Char)} :
    Lined text ls ↔ lines text = ls :=
  ⟨Lined.lines_eq, fun h => h ▸ lined_lines text⟩

end CallWatch.Text

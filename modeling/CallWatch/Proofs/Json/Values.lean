import CallWatch.Proofs.Json.Reads

namespace CallWatch.Json

variable {α β : Type}

-- A reader that turns what it reads into something else.
theorem Reads.bind {r : Reader α} {f : α → Reader β} {text : List Char} {a : α} {b : β}
    (h : Reads r text a) (hf : f a = pure b) : Reads (r >>= f) text b where
  solid := h.solid
  run rest hrest := by
    rw [Reader.run_bind (h.run rest hrest), hf, Reader.run_pure]

namespace Reader

theorem reads_text (cs : List Char) : Reads text (Writer.text cs) cs where
  solid := ⟨'"', cs.flatMap Writer.escape ++ ['"'], rfl, by decide, by decide⟩
  run rest _ := by
    have hbody := Quoted.body_flatMap_escape cs rest
    rw [text, Writer.text, List.cons_append, List.cons_append, run_bind (run_token? (by decide) _),
      if_pos rfl, run_bind (run_advance _ _), List.append_assoc]
    exact hbody

theorem reads_string (s : String) : Reads string (Writer.string s) s :=
  (reads_text s.toList).bind (by rw [String.ofList_toList])

theorem reads_bool (b : Bool) : Reads bool (Writer.bool b) b where
  solid := by
    cases b with
    | true => exact ⟨'t', _, rfl, by decide, by decide⟩
    | false => exact ⟨'f', _, rfl, by decide, by decide⟩
  run rest _ := by
    cases b with
    | true =>
        rw [bool, Writer.bool, if_pos rfl, show "true".toList = 't' :: "rue".toList from rfl,
          List.cons_append, run_bind (run_token? (by decide) _)]
        exact run_bind (run_literal "true".toList rest)
    | false =>
        rw [bool, Writer.bool, if_neg (by decide),
          show "false".toList = 'f' :: "alse".toList from rfl, List.cons_append,
          run_bind (run_token? (by decide) _)]
        exact run_bind (run_literal "false".toList rest)

theorem exists_writeInt (i : Int) :
    ∃ c cs, Text.writeInt i = c :: cs ∧ isNumberStart c := by
  rcases Int.lt_or_le i 0 with hneg | hpos
  · exact ⟨'-', _, Text.writeInt_of_neg hneg, by decide⟩
  · obtain ⟨c, cs, hcs⟩ := List.exists_cons_of_ne_nil (Text.digits_ne_nil i.toNat)
    have hc : c.isDigit := Text.isDigit_of_mem_digits (n := i.toNat) (by rw [hcs]; simp)
    exact ⟨c, cs, (Text.writeInt_of_nonneg hpos).trans hcs, by simp [isNumberStart, hc]⟩

-- The first character of a number is no other sign.
theorem ne_of_isNumberStart {c d : Char} (h : isNumberStart c) (hd : isNumberStart d = false) :
    c ≠ d := by
  rintro rfl
  rw [h] at hd
  cases hd

theorem isBlank_of_isNumberStart {c : Char} (h : isNumberStart c) : isBlank c = false := by
  rw [Bool.eq_false_iff, isBlank]
  intro hblank
  simp only [Bool.or_eq_true, beq_iff_eq] at hblank
  obtain ((rfl | rfl) | rfl) | rfl := hblank <;> exact absurd h (by decide)

theorem reads_integer {lower upper i : Int} (hlower : lower ≤ i) (hupper : i ≤ upper)
    (hmin : -9223372036854775808 ≤ i) (hmax : i ≤ Count.limit) :
    Reads (integer lower upper) (Writer.integer i) i := by
  obtain ⟨c, cs, htext, hc⟩ := exists_writeInt i
  have hblank := isBlank_of_isNumberStart hc
  refine ⟨⟨c, cs, htext, hblank, ne_of_isNumberStart hc (by decide)⟩, fun rest hrest => ?_⟩
  have hread := Number.run_writeInt hmin hmax hrest
  rw [Writer.integer]
  rw [htext, List.cons_append] at hread ⊢
  rw [integer, run_bind (run_token? hblank _)]
  simp only [hc, if_true]
  rw [run_bind hread]
  simp only [hlower, hupper, and_self, if_true]
  rfl

theorem reads_natural {limit n : Nat} (h : n ≤ limit) (hmax : n ≤ Count.limit) :
    Reads (natural limit) (Writer.natural n) n := by
  have hwrite : Writer.natural n = Writer.integer n := by
    rw [Writer.natural, Writer.integer, Text.writeInt_of_nonneg (by omega), Int.toNat_natCast]
  rw [hwrite]
  refine (reads_integer (by omega) ?_ (by omega) (by omega)).bind rfl
  exact Int.ofNat_le.mpr h

-- A name is found among the values it may stand for.
theorem reads_name {values : List (String × α)} {name : String} {value : α}
    (h : (values.find? fun v => v.1.toList = name.toList) = some (name, value)) :
    Reads (Reader.name values) (Writer.string name) value where
  solid := ⟨'"', name.toList.flatMap Writer.escape ++ ['"'], rfl, by decide, by decide⟩
  run rest _ := by
    have hbody : Quoted.read (name.toList.flatMap Writer.escape ++ '"' :: rest) =
        .ok (name.toList, rest) := Quoted.body_flatMap_escape name.toList rest
    have hnamed : named values name.toList rest = .ok (value, rest) := by
      rw [named, h]
      rfl
    rw [Writer.string, Writer.text, List.cons_append, List.cons_append, List.append_assoc,
      List.singleton_append]
    generalize name.toList.flatMap Writer.escape ++ '"' :: rest = text at hbody
    have htoken : token? ('"' :: text) = .ok (some '"', '"' :: text) :=
      run_token? (by decide) text
    rw [Reader.name, run_bind htoken, if_neg (by decide), quotedName, run_bind htoken, if_pos rfl,
      run_bind (run_advance _ _), run_bind hbody, hnamed]

-- Something that is there, and is not the word for nothing.
theorem reads_option {r : Reader α} {text : List Char} {value : α} (h : Reads r text value)
    (hn : text.head? ≠ some 'n') : Reads (option r) text (some value) where
  solid := h.solid
  run rest hrest := by
    have hrun := h.run rest hrest
    obtain ⟨c, cs, rfl, hblank, -⟩ := h.solid
    rw [List.cons_append] at hrun ⊢
    rw [option, run_bind (run_token? hblank _), if_neg (show some c ≠ some 'n' from hn),
      run_bind hrun]
    rfl

-- Whether another member follows: the first, a later one, or none.
theorem run_another_first {close c : Char} (hblank : isBlank c = false) (hc : c ≠ close)
    (cs : List Char) : another close true (c :: cs) = .ok (true, c :: cs) := by
  rw [another, run_bind (run_token? hblank cs)]
  simp only [hc, if_false, if_true]
  rfl

theorem run_another_next {close c : Char} (hblank : isBlank c = false) (hc : c ≠ close)
    (hclose : ',' ≠ close) (cs : List Char) :
    another close false (',' :: c :: cs) = .ok (true, c :: cs) := by
  rw [another, run_bind (run_token? (by decide) _)]
  simp only [hclose, if_false, if_true, Bool.false_eq_true]
  rw [run_bind (run_advance _ _), run_bind (run_token? hblank cs)]
  simp only [hc, if_false]
  rfl

theorem run_another_close {close : Char} (hblank : isBlank close = false) (first : Bool)
    (cs : List Char) : another close first (close :: cs) = .ok (false, close :: cs) := by
  rw [another, run_bind (run_token? hblank cs)]
  simp only [if_true]
  rfl

end Reader

namespace Writer

-- Parts after the first follow a comma each.
def following (parts : List (List Char)) : List Char :=
  parts.flatMap fun part => ',' :: part

theorem separated_cons (part : List Char) (parts : List (List Char)) :
    separated (part :: parts) = part ++ following parts := by
  induction parts generalizing part with
  | nil => simp [separated, following]
  | cons next rest ih =>
      have hnext := ih next
      rw [separated] at hnext
      rw [separated, List.intercalate_cons_cons, hnext, List.append_assoc]
      rfl

theorem length_le_following (parts : List (List Char)) :
    parts.length ≤ (following parts).length := by
  induction parts with
  | nil => exact Nat.le_refl 0
  | cons part parts ih =>
      simp only [following, List.flatMap_cons, List.length_append, List.length_cons] at ih ⊢
      omega

theorem ends_following {close : Char} (hclose : close = ']' ∨ close = '\x7d')
    (parts : List (List Char)) (rest : List Char) : Ends (following parts ++ close :: rest) := by
  cases parts with
  | nil => exact Ends.cons (.inr hclose) rest
  | cons part parts => exact Ends.cons (.inl rfl) _

end Writer

namespace Reader

theorem run_items {item : Reader α} {n : Nat} {first : Bool} {cs ds es rest : List Char} {x : α}
    {xs : List α} (hanother : another ']' first cs = .ok (true, ds)) (hitem : item ds = .ok (x, es))
    (hitems : items item n false es = .ok (xs, rest)) :
    items item (n + 1) first cs = .ok (x :: xs, rest) := by
  rw [items, run_bind hanother, if_pos rfl, run_bind hitem, run_bind hitems]
  rfl

theorem run_items_close {item : Reader α} {n : Nat} (hn : 0 < n) (first : Bool)
    (rest : List Char) : items item n first (']' :: rest) = .ok ([], rest) := by
  obtain ⟨n, rfl⟩ := Nat.exists_eq_succ_of_ne_zero (Nat.ne_of_gt hn)
  exact run_bind (run_another_close (by decide) first rest)

theorem run_items_following {item : Reader α} {write : α → List Char} {xs : List α}
    (h : ∀ x ∈ xs, Reads item (write x) x) {n : Nat} (hn : xs.length < n) (rest : List Char) :
    items item n false (Writer.following (xs.map write) ++ ']' :: rest) = .ok (xs, rest) := by
  induction xs generalizing n with
  | nil => exact run_items_close hn false rest
  | cons x xs ih =>
      obtain ⟨n, rfl⟩ := Nat.exists_eq_succ_of_ne_zero (Nat.ne_of_gt (Nat.zero_lt_of_lt hn))
      obtain ⟨hx, hxs⟩ := List.forall_mem_cons.mp h
      have hitem := hx.run _ (Writer.ends_following (.inl rfl) (xs.map write) rest)
      obtain ⟨c, cs, htext, hblank, hc⟩ := hx.solid
      have hcs : Writer.following ((x :: xs).map write) ++ ']' :: rest =
          ',' :: (write x ++ (Writer.following (xs.map write) ++ ']' :: rest)) := by
        simp [Writer.following]
      rw [hcs]
      refine run_items ?_ hitem (ih hxs (Nat.lt_of_succ_lt_succ hn))
      rw [htext]
      exact run_another_next hblank hc (by decide) _

theorem reads_list {item : Reader α} {write : α → List Char} {xs : List α}
    (h : ∀ x ∈ xs, Reads item (write x) x) :
    Reads (list item) (Writer.array (xs.map write)) xs where
  solid := ⟨'[', _, rfl, by decide, by decide⟩
  run rest _ := by
    rw [list, Writer.array, List.cons_append, List.cons_append,
      run_bind (run_token? (by decide) _), if_pos rfl, run_bind (run_advance _ _),
      run_bind (run_remaining _), List.append_assoc, List.singleton_append]
    cases xs with
    | nil => exact run_items_close (Nat.succ_pos _) true rest
    | cons x xs =>
        obtain ⟨hx, hxs⟩ := List.forall_mem_cons.mp h
        have hitem := hx.run _ (Writer.ends_following (.inl rfl) (xs.map write) rest)
        have hlength := Writer.length_le_following (xs.map write)
        obtain ⟨c, cs, htext, hblank, hc⟩ := hx.solid
        rw [List.map_cons, Writer.separated_cons, List.append_assoc]
        refine run_items ?_ hitem (run_items_following hxs ?_ rest)
        · rw [htext]
          exact run_another_first hblank hc _
        · rw [List.length_map] at hlength
          simp only [List.length_append, List.length_cons]
          omega

end Reader

end CallWatch.Json

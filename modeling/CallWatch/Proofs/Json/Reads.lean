import CallWatch.Json.Format.Basic
import CallWatch.Proofs.Text.Digits

namespace CallWatch.Json

-- What may follow a value that is written without blanks.
def Ends (rest : List Char) : Prop :=
  ∀ c ∈ rest.head?, c = ',' ∨ c = ']' ∨ c = '\x7d'

-- A reader takes exactly what was written for a value off the front of a text. What was
-- written can be told from a blank and from the end of a list by its first character.
structure Reads {α : Type} (r : Reader α) (text : List Char) (value : α) : Prop where
  solid : ∃ c cs, text = c :: cs ∧ Reader.isBlank c = false ∧ c ≠ ']'
  run : ∀ rest, Ends rest → r (text ++ rest) = .ok (value, rest)

theorem Ends.nil : Ends [] := by
  simp [Ends]

theorem Ends.cons {c : Char} (h : c = ',' ∨ c = ']' ∨ c = '\x7d') (rest : List Char) :
    Ends (c :: rest) := by
  simpa [Ends] using h

theorem Format.ofText_toText {α : Type} {f : Format α} {value : α}
    (h : Reads f.read (f.write value) value) : f.ofText (f.toText value) = .ok value := by
  have hall := h.run [] Ends.nil
  rw [List.append_nil] at hall
  rw [ofText, toText, Reader.readAll, String.toList_ofList, hall]
  rfl

namespace Reader

variable {α β : Type}

theorem run_bind {r : Reader α} {f : α → Reader β} {cs rest : List Char} {a : α}
    (h : r cs = .ok (a, rest)) : (r >>= f) cs = f a rest := by
  simp only [bind, StateT.bind, h, Except.bind]

theorem run_pure (a : α) (cs : List Char) : (pure a : Reader α) cs = .ok (a, cs) := rfl

theorem run_peek? (cs : List Char) : peek? cs = .ok (cs.head?, cs) := rfl

theorem run_remaining (cs : List Char) : remaining cs = .ok (cs.length, cs) := rfl

theorem run_advance (c : Char) (cs : List Char) : advance (c :: cs) = .ok ((), cs) := rfl

theorem run_token? {c : Char} (h : isBlank c = false) (cs : List Char) :
    token? (c :: cs) = .ok (some c, c :: cs) := by
  have hblanks : blanks (c :: cs) = .ok ((), c :: cs) := by
    rw [blanks, List.dropWhile_cons_of_neg (by simp [h])]
  rw [token?, run_bind hblanks]
  rfl

theorem run_takeDigits {ds rest : List Char} (hds : ∀ c ∈ ds, c.isDigit) (hrest : Ends rest) :
    takeDigits (ds ++ rest) = .ok (ds, rest) := by
  have hstop : rest.takeWhile Char.isDigit = [] ∧ rest.dropWhile Char.isDigit = rest := by
    cases rest with
    | nil => exact ⟨rfl, rfl⟩
    | cons c rest =>
        have hc : c.isDigit = false := by
          obtain rfl | rfl | rfl := hrest c rfl <;> decide
        exact ⟨by rw [List.takeWhile_cons_of_neg (by simp [hc])],
          by rw [List.dropWhile_cons_of_neg (by simp [hc])]⟩
  rw [takeDigits, List.takeWhile_append_of_pos hds, List.dropWhile_append_of_pos hds,
    hstop.1, hstop.2, List.append_nil]

theorem run_literal (cs rest : List Char) : literal cs (cs ++ rest) = .ok ((), rest) := by
  induction cs with
  | nil => rfl
  | cons c cs ih =>
      rw [literal, List.cons_append, run_bind (run_peek? _), List.head?_cons, if_pos rfl,
        run_bind (run_advance _ _), ih]

-- To change what was read changes nothing about the reading.
theorem readAll_map (f : α → β) (r : Reader α) (text : String) :
    (f <$> r).readAll text = (r.readAll text).map f := by
  have hrun : (f <$> r) text.toList = (r text.toList).map fun p => (f p.1, p.2) := by
    cases h : r text.toList <;>
      simp [Functor.map, StateT.map, h, bind, Except.bind, pure, Except.pure, Except.map]
  rw [readAll, readAll, hrun]
  cases r text.toList with
  | error d => rfl
  | ok p =>
      simp only [Except.map]
      split <;> rfl

theorem map_missing (f : α → β) : f <$> (missing : Reader α) = missing := by
  simp only [missing, map_bind]
  congr 1
  funext c
  cases c <;> rfl

theorem map_refuse (f : α → β) : f <$> (refuse : Reader α) = refuse := by
  simp only [refuse, map_bind]
  congr 1
  funext c
  split
  case h_4 => simp only [map_bind]; rfl
  all_goals rfl

end Reader

namespace Number

theorem le_foldl_digits (ds : List Char) (n : Nat) :
    n ≤ ds.foldl (fun n c => n * 10 + Text.digitValue c) n := by
  induction ds generalizing n with
  | nil => exact Nat.le_refl n
  | cons c ds ih => exact Nat.le_trans (by omega) (ih (n * 10 + Text.digitValue c))

-- As long as the number fits, no digit is left.
theorem accumulate_eq {n : Nat} {ds : List Char}
    (h : ds.foldl (fun n c => n * 10 + Text.digitValue c) n ≤ Count.limit) :
    accumulate n ds = (ds.foldl (fun n c => n * 10 + Text.digitValue c) n, 0) := by
  induction ds generalizing n with
  | nil => rfl
  | cons c ds ih =>
      have hnext : n * 10 + Text.digitValue c ≤ Count.limit :=
        Nat.le_trans (le_foldl_digits ds _) h
      rw [accumulate]
      simp only [if_pos hnext]
      exact ih h

theorem accumulate_digits {n : Nat} (h : n ≤ Count.limit) :
    accumulate 0 (Text.digits n) = (n, 0) := by
  have hvalue : (Text.digits n).foldl (fun n c => n * 10 + Text.digitValue c) 0 = n :=
    Text.valueOf_digits n
  rw [accumulate_eq (by rw [hvalue]; exact h), hvalue]

-- A number ends with its digits, since nothing that goes on with it may follow.
theorem run_read (negative : Bool) {n : Nat} (h : n ≤ Count.limit) {rest : List Char}
    (hrest : Ends rest) :
    read ((if negative then ['-'] else []) ++ (Text.digits n ++ rest)) =
      .ok (ofSignificand negative n, rest) := by
  have hdigits : Reader.takeDigits (Text.digits n ++ rest) = .ok (Text.digits n, rest) :=
    Reader.run_takeDigits (fun c => Text.isDigit_of_mem_digits) hrest
  have hsign : (Text.digits n ++ rest).head? ≠ some '-' := by
    obtain ⟨c, cs, hcs⟩ := List.exists_cons_of_ne_nil (Text.digits_ne_nil n)
    have hc : c.isDigit := Text.isDigit_of_mem_digits (n := n) (by rw [hcs]; simp)
    rw [hcs, List.cons_append, List.head?_cons]
    rintro ⟨⟩
    exact absurd hc (by decide)
  rw [read, Reader.run_bind (Reader.run_peek? _)]
  cases negative
  case' true =>
    simp only [if_true, List.singleton_append, List.head?_cons, beq_self_eq_true]
    rw [Reader.run_bind (Reader.run_advance _ _), Reader.run_bind hdigits]
  case' false =>
    simp only [Bool.false_eq_true, if_false, List.nil_append, beq_eq_false_iff_ne.mpr hsign]
    rw [Reader.run_bind hdigits]
  all_goals
    have hsum := accumulate_digits h
    have hnil := Text.digits_ne_nil n
    have hzero := Text.digits_ne_zero_cons n
    generalize Text.digits n = ds at hsum hnil hzero
    split
    · exact absurd rfl hnil
    · exact absurd rfl (hzero _ _)
    · rw [hsum, Reader.run_bind (Reader.run_peek? rest)]
      cases rest with
      | nil => rfl
      | cons c rest => obtain rfl | rfl | rfl := hrest c rfl <;> rfl

-- An integer that fits 64 bits, signed or not.
theorem run_writeInt {i : Int} (hlower : -9223372036854775808 ≤ i) (hupper : i ≤ Count.limit)
    {rest : List Char} (hrest : Ends rest) :
    read (Text.writeInt i ++ rest) = .ok (.whole i, rest) := by
  rcases Int.lt_or_le i 0 with hneg | hpos
  · have hread := run_read true (n := i.natAbs) (by rw [Count.limit]; omega) hrest
    rw [Text.writeInt_of_neg hneg]
    refine hread.trans ?_
    have hbounds : 0 < i.natAbs ∧ i.natAbs ≤ 9223372036854775808 := by omega
    have habs : -(i.natAbs : Int) = i := by omega
    rw [ofSignificand, if_neg (by decide), if_pos hbounds, habs]
  · have hread := run_read false (n := i.toNat) (by rw [Count.limit] at *; omega) hrest
    rw [Text.writeInt_of_nonneg hpos]
    refine hread.trans ?_
    have habs : (i.toNat : Int) = i := by omega
    rw [ofSignificand, if_pos (by decide), habs]

end Number

namespace Quoted

theorem unit?_control : ∀ n < 32,
    unit? '0' '0' (Writer.hexDigit (n / 16)) (Writer.hexDigit (n % 16)) = some n := by
  decide

theorem body_quote (rest : List Char) : body ('"' :: rest) = .ok ([], rest) := by
  rw [body.eq_def]
  rfl

theorem body_plain {c : Char} (hquote : c ≠ '"') (hcontrol : ¬c.toNat < 0x20)
    (hescape : c ≠ '\\') (rest : List Char) : body (c :: rest) = cons c (body rest) := by
  rw [body.eq_def]
  simp only [if_neg hquote, if_neg hcontrol, if_pos hescape]

theorem backslash_ne : '\\' ≠ '"' ∧ ¬ '\\'.toNat < 0x20 := by
  decide

theorem body_escaped {s c : Char} (hs : s ≠ 'u') (hc : escaped? s = some c) (rest : List Char) :
    body ('\\' :: s :: rest) = cons c (body rest) := by
  rw [body.eq_def]
  simp only [if_neg backslash_ne.1, if_neg backslash_ne.2, ne_eq, not_true_eq_false, if_false, hs,
    not_false_eq_true, if_true, hc]

theorem body_unit {x₁ x₂ x₃ x₄ : Char} {n : Nat} (hn : unit? x₁ x₂ x₃ x₄ = some n)
    (hlow : isLow n = false) (hhigh : isHigh n = false) (rest : List Char) :
    body ('\\' :: 'u' :: x₁ :: x₂ :: x₃ :: x₄ :: rest) = cons (Char.ofNat n) (body rest) := by
  rw [body.eq_def]
  simp only [if_neg backslash_ne.1, if_neg backslash_ne.2, ne_eq, not_true_eq_false, if_false, hn,
    hlow, hhigh, Bool.false_eq_true]

theorem body_escape (c : Char) (rest : List Char) :
    body (Writer.escape c ++ rest) = cons c (body rest) := by
  have hself : Char.ofNat c.toNat = c := Char.ofNat_toNat c
  rw [Writer.escape]
  split
  · subst_vars
    exact body_escaped (by decide) rfl rest
  split
  · subst_vars
    exact body_escaped (by decide) rfl rest
  split
  · subst_vars
    exact body_escaped (by decide) rfl rest
  split
  · subst_vars
    exact body_escaped (by decide) rfl rest
  split
  · subst_vars
    exact body_escaped (by decide) rfl rest
  split
  · rename_i h
    rw [← hself, h]
    exact body_escaped (by decide) rfl rest
  split
  · rename_i h
    rw [← hself, h]
    exact body_escaped (by decide) rfl rest
  split
  · rename_i h
    have hlow : isLow c.toNat = false := by
      rw [isLow, Bool.and_eq_false_iff]
      left
      simp
      omega
    have hhigh : isHigh c.toNat = false := by
      rw [isHigh, Bool.and_eq_false_iff]
      left
      simp
      omega
    exact (body_unit (unit?_control c.toNat h) hlow hhigh rest).trans (by rw [hself])
  · rename_i hquote hescape _ _ _ _ _ hcontrol
    exact body_plain hquote hcontrol hescape rest

theorem body_flatMap_escape (cs rest : List Char) :
    body (cs.flatMap Writer.escape ++ '"' :: rest) = .ok (cs, rest) := by
  induction cs with
  | nil => exact body_quote rest
  | cons c cs ih =>
      rw [List.flatMap_cons, List.append_assoc, body_escape, ih]
      rfl

end Quoted

end CallWatch.Json

import CallWatch.Text.Numeral

namespace CallWatch.Text

-- The digits of a number are read back as that number.

theorem digitValue_digit {n : Nat} (h : n < 10) : digitValue (digit n) = n := by
  have hall : ∀ n < 10, digitValue (digit n) = n := by decide
  exact hall n h

theorem isDigit_digit {n : Nat} (h : n < 10) : (digit n).isDigit := by
  have hall : ∀ n < 10, (digit n).isDigit := by decide
  exact hall n h

theorem digit_eq_zero {n : Nat} (h : n < 10) (hzero : digit n = '0') : n = 0 := by
  have hall : ∀ n < 10, digit n = '0' → n = 0 := by decide
  exact hall n h hzero

theorem valueOf_append_singleton (cs : List Char) (c : Char) :
    valueOf (cs ++ [c]) = valueOf cs * 10 + digitValue c := by
  rw [valueOf, List.foldl_append]
  rfl

theorem valueOf_digits (n : Nat) : valueOf (digits n) = n := by
  induction n using digits.induct with
  | case1 n h =>
      rw [digits, if_pos h]
      simp [valueOf, digitValue_digit h]
  | case2 n h ih =>
      have hlast := digitValue_digit (Nat.mod_lt n (show 0 < 10 by omega))
      rw [digits, if_neg h, valueOf_append_singleton, ih, hlast]
      omega

theorem isDigit_of_mem_digits {n : Nat} {c : Char} (hc : c ∈ digits n) : c.isDigit := by
  induction n using digits.induct with
  | case1 n h =>
      rw [digits, if_pos h, List.mem_singleton] at hc
      exact hc ▸ isDigit_digit h
  | case2 n h ih =>
      rw [digits, if_neg h, List.mem_append, List.mem_singleton] at hc
      cases hc with
      | inl hfront => exact ih hfront
      | inr hlast => exact hlast ▸ isDigit_digit (Nat.mod_lt n (by omega))

theorem digits_ne_nil (n : Nat) : digits n ≠ [] := by
  rw [digits]
  split <;> simp

-- Only zero starts with a zero.
theorem head?_digits_of_pos {n : Nat} (h : 0 < n) : (digits n).head? ≠ some '0' := by
  induction n using digits.induct with
  | case1 n hn =>
      rw [digits, if_pos hn, List.head?_cons]
      intro hzero
      have := digit_eq_zero hn (Option.some.inj hzero)
      omega
  | case2 n hn ih =>
      rw [digits, if_neg hn, List.head?_append]
      obtain ⟨c, hc⟩ := Option.ne_none_iff_exists'.mp
        (mt List.head?_eq_none_iff.mp (digits_ne_nil (n / 10)))
      rw [hc, Option.some_or, ← hc]
      exact ih (by omega)

theorem digits_zero : digits 0 = ['0'] := by
  rw [digits, if_pos (by omega)]
  rfl

-- No digit follows a leading zero.
theorem digits_ne_zero_cons (n : Nat) (c : Char) (cs : List Char) : digits n ≠ '0' :: c :: cs := by
  intro h
  rcases Nat.eq_zero_or_pos n with hzero | hpos
  · rw [hzero, digits_zero] at h
    simp at h
  · exact head?_digits_of_pos hpos (by rw [h]; rfl)

-- An integer carries a sign only below zero.
theorem writeInt_of_nonneg {i : Int} (h : 0 ≤ i) : writeInt i = digits i.toNat := by
  rw [writeInt, if_neg (by omega), show i.natAbs = i.toNat by omega]

theorem writeInt_of_neg {i : Int} (h : i < 0) : writeInt i = '-' :: digits i.natAbs := by
  rw [writeInt, if_pos h]

theorem readDigits?_digits (n : Nat) : readDigits? (digits n) = some n := by
  rw [readDigits?, if_pos, valueOf_digits]
  exact ⟨digits_ne_nil n, List.all_eq_true.mpr fun c hc => isDigit_of_mem_digits hc⟩

theorem readInt?_writeInt {lower upper i : Int} (hlower : lower ≤ i) (hupper : i ≤ upper) :
    readInt? lower upper (writeInt i) = some i := by
  rcases Int.lt_or_le i 0 with hneg | hpos
  · have habs : -(i.natAbs : Int) = i := by omega
    rw [writeInt_of_neg hneg, readInt?, readDigits?_digits, Option.map_some, Int.ofNat_eq_natCast,
      habs, Option.filter_some, if_pos (decide_eq_true ⟨hlower, hupper⟩)]
  · have habs : (i.toNat : Int) = i := by omega
    have hdigit : ∀ c rest, digits i.toNat = c :: rest → c.isDigit := fun c rest h =>
      isDigit_of_mem_digits (n := i.toNat) (by rw [h]; exact List.mem_cons_self)
    rw [writeInt_of_nonneg hpos, readInt?, readDigits?_digits]
    · rw [Option.map_some, Int.ofNat_eq_natCast, habs, Option.filter_some,
        if_pos (decide_eq_true ⟨hlower, hupper⟩)]
    · exact fun rest hplus => absurd (hdigit _ _ hplus) (by decide)
    · exact fun rest hminus => absurd (hdigit _ _ hminus) (by decide)

end CallWatch.Text

import CallWatch.Proofs.Text.Digits
import Mathlib.Data.List.Induction

namespace CallWatch.Text

-- A numeral for a number: its digits, behind any number of zeros and at most one plus sign.
def Spells (numeral : List Char) (n : Nat) : Prop :=
  ∃ plus zeros, (plus = [] ∨ plus = ['+']) ∧
    numeral = plus ++ (List.replicate zeros '0' ++ digits n)

theorem digit_digitValue {c : Char} (h : c.isDigit) : digit (digitValue c) = c := by
  have hrange : 48 ≤ c.toNat ∧ c.toNat ≤ 57 := Char.isDigit_iff_toNat.mp h
  rw [digit, digitValue, Nat.add_sub_of_le hrange.1, Char.ofNat_toNat]

theorem digitValue_lt {c : Char} (h : c.isDigit) : digitValue c < 10 := by
  have hrange : 48 ≤ c.toNat ∧ c.toNat ≤ 57 := Char.isDigit_iff_toNat.mp h
  rw [digitValue]
  omega

theorem digits_of_lt {n : Nat} (h : n < 10) : digits n = [digit n] := by
  rw [digits, if_pos h]

theorem digits_mul_ten_add {n d : Nat} (hn : 0 < n) (hd : d < 10) :
    digits (n * 10 + d) = digits n ++ [digit d] := by
  have hdiv : (n * 10 + d) / 10 = n := by omega
  have hmod : (n * 10 + d) % 10 = d := by omega
  rw [digits, if_neg (by omega), hdiv, hmod]

theorem valueOf_zeros_append (zeros : Nat) (cs : List Char) :
    valueOf (List.replicate zeros '0' ++ cs) = valueOf cs := by
  induction zeros with
  | zero => rfl
  | succ zeros ih => exact ih

-- A run of digits is the digits of its value behind zeros. The value grows by the last
-- digit, so the induction takes that one off.
theorem exists_zeros_digits {cs : List Char} (hne : cs ≠ []) (hdigits : ∀ c ∈ cs, c.isDigit) :
    ∃ zeros, cs = List.replicate zeros '0' ++ digits (valueOf cs) := by
  induction cs using List.reverseRecOn with
  | nil => exact absurd rfl hne
  | append_singleton front c ih =>
      have hc : c.isDigit := hdigits c (by simp)
      have hlt : digitValue c < 10 := digitValue_lt hc
      have hlast : digits (digitValue c) = [c] := by rw [digits_of_lt hlt, digit_digitValue hc]
      rw [valueOf_append_singleton]
      rcases eq_or_ne front [] with rfl | hfront
      · refine ⟨0, ?_⟩
        rw [show valueOf [] * 10 + digitValue c = digitValue c by simp [valueOf], hlast]
        rfl
      · obtain ⟨zeros, hzeros⟩ := ih hfront fun d hd => hdigits d (by simp [hd])
        rcases Nat.eq_zero_or_pos (valueOf front) with hzero | hpos
        -- In front of the last digit there are only zeros.
        · rw [hzero, digits_zero] at hzeros
          refine ⟨zeros + 1, ?_⟩
          rw [hzero, Nat.zero_mul, Nat.zero_add, hlast, hzeros, List.replicate_succ']
        · refine ⟨zeros, ?_⟩
          rw [digits_mul_ten_add hpos hlt, digit_digitValue hc, ← List.append_assoc, ← hzeros]

theorem isDigit_of_mem_zeros_digits {zeros n : Nat} {c : Char}
    (h : c ∈ List.replicate zeros '0' ++ digits n) : c.isDigit := by
  rcases List.mem_append.mp h with hzero | hdigit
  · rw [List.eq_of_mem_replicate hzero]
    rfl
  · exact isDigit_of_mem_digits hdigit

theorem readDigits?_eq_some_iff {cs : List Char} {n : Nat} :
    readDigits? cs = some n ↔ ∃ zeros, cs = List.replicate zeros '0' ++ digits n := by
  rw [readDigits?]
  constructor
  · intro h
    split at h
    · rename_i hcs
      rw [← Option.some.inj h]
      exact exists_zeros_digits hcs.1 (List.all_eq_true.mp hcs.2)
    · cases h
  · rintro ⟨zeros, rfl⟩
    rw [if_pos, valueOf_zeros_append, valueOf_digits]
    exact ⟨fun h => digits_ne_nil n (List.append_eq_nil_iff.mp h).2,
      List.all_eq_true.mpr fun c hc => isDigit_of_mem_zeros_digits hc⟩

theorem readNat?_plus (limit : Nat) (cs : List Char) :
    readNat? limit ('+' :: cs) = (readDigits? cs).filter (· ≤ limit) := rfl

theorem readNat?_of_no_plus {limit : Nat} {cs : List Char} (h : ∀ rest, cs ≠ '+' :: rest) :
    readNat? limit cs = (readDigits? cs).filter (· ≤ limit) := by
  rw [readNat?]
  exact h

theorem no_plus_of_isDigit {cs : List Char} (h : ∀ c ∈ cs, c.isDigit) (rest : List Char) :
    cs ≠ '+' :: rest := by
  rintro rfl
  exact absurd (h '+' List.mem_cons_self) (by decide)

theorem readNat?_eq_some_iff {limit n : Nat} {cs : List Char} :
    readNat? limit cs = some n ↔ n ≤ limit ∧ Spells cs n := by
  constructor
  · intro h
    by_cases hplus : ∃ rest, cs = '+' :: rest
    · obtain ⟨rest, rfl⟩ := hplus
      rw [readNat?_plus, Option.filter_eq_some_iff, readDigits?_eq_some_iff] at h
      obtain ⟨⟨zeros, hzeros⟩, hlimit⟩ := h
      exact ⟨of_decide_eq_true hlimit, ['+'], zeros, .inr rfl, by rw [hzeros]; rfl⟩
    · rw [readNat?_of_no_plus fun rest hrest => hplus ⟨rest, hrest⟩, Option.filter_eq_some_iff,
        readDigits?_eq_some_iff] at h
      obtain ⟨⟨zeros, hzeros⟩, hlimit⟩ := h
      exact ⟨of_decide_eq_true hlimit, [], zeros, .inl rfl, hzeros⟩
  · rintro ⟨hlimit, plus, zeros, hplus, rfl⟩
    have hread : readDigits? (List.replicate zeros '0' ++ digits n) = some n :=
      readDigits?_eq_some_iff.mpr ⟨zeros, rfl⟩
    have hkept : (some n).filter (· ≤ limit) = some n :=
      Option.filter_eq_some_iff.mpr ⟨rfl, decide_eq_true hlimit⟩
    rcases hplus with rfl | rfl
    · rw [List.nil_append, readNat?_of_no_plus (no_plus_of_isDigit fun c hc =>
        isDigit_of_mem_zeros_digits hc), hread, hkept]
    · rw [List.singleton_append, readNat?_plus, hread, hkept]

-- A numeral is one of one number only.
theorem Spells.eq {numeral : List Char} {m n : Nat} (hm : Spells numeral m)
    (hn : Spells numeral n) : m = n := by
  have hreadm : readNat? (max m n) numeral = some m :=
    readNat?_eq_some_iff.mpr ⟨Nat.le_max_left m n, hm⟩
  have hreadn : readNat? (max m n) numeral = some n :=
    readNat?_eq_some_iff.mpr ⟨Nat.le_max_right m n, hn⟩
  exact Option.some.inj (hreadm.symm.trans hreadn)

theorem spells_digits (n : Nat) : Spells (digits n) n :=
  ⟨[], 0, .inl rfl, rfl⟩

theorem Spells.not_mem {numeral : List Char} {n : Nat} {c : Char} (h : Spells numeral n)
    (hplus : c ≠ '+') (hdigit : c.isDigit = false) : c ∉ numeral := by
  obtain ⟨plus, zeros, hsign, rfl⟩ := h
  intro hc
  rcases List.mem_append.mp hc with hc | hc
  · rcases hsign with rfl | rfl
    · cases hc
    · exact hplus (List.mem_singleton.mp hc)
  · exact absurd (isDigit_of_mem_zeros_digits hc) (by simp [hdigit])

end CallWatch.Text

import CallWatch.Text.Blank
import CallWatch.Text.Lower
import Mathlib.Data.List.Infix

namespace CallWatch.Text

-- What the lower case of a character can be. Of the characters beyond ASCII only the two in
-- `lower` have an ASCII letter in theirs. The others have some characters beyond ASCII, and
-- which these are may depend on the text around, as for a sigma at the end of a word.
inductive LowerOf (c : Char) : List Char → Prop where
  | listed : LowerOf c (lower c)
  | beyond {part} : 128 ≤ c.toNat → c.toNat ≠ 0x130 → c.toNat ≠ 0x212A → part ≠ [] →
      (∀ d ∈ part, 128 ≤ d.toNat) → LowerOf c part

-- The lower cases of a text.
inductive Lowers : List Char → List Char → Prop where
  | nil : Lowers [] []
  | cons {c part cs folded} : LowerOf c part → Lowers cs folded → Lowers (c :: cs) (part ++ folded)

-- A text in ASCII that no character beyond ASCII helps to spell: of these only the Kelvin
-- sign has a `k`, and only a dotted capital I an `i`, with a combining dot behind it.
structure Telling (word : List Char) : Prop where
  ascii : ∀ c ∈ word, c.toNat < 128
  no_kelvin : 'k' ∉ word
  no_dotted : word.getLast? ≠ some 'i'

theorem lowers_lowerAll (cs : List Char) : Lowers cs (lowerAll cs) := by
  induction cs with
  | nil => exact .nil
  | cons c cs ih =>
      rw [lowerAll, List.flatMap_cons]
      exact .cons .listed ih

theorem forall_ascii {P : Char → Prop} (h : ∀ n < 128, P (Char.ofNat n)) {c : Char}
    (hc : c.toNat < 128) : P c := by
  have hp := h c.toNat hc
  rwa [Char.ofNat_toNat] at hp

theorem lower_of_lt {c : Char} (h : c.toNat < 128) : lower c = [c.toLower] :=
  forall_ascii (P := fun c => lower c = [c.toLower]) (by decide) h

theorem toLower_of_le {c : Char} (h : 128 ≤ c.toNat) : c.toLower = c := by
  refine dif_neg ?_
  rintro ⟨-, hupper⟩
  have : c.toNat ≤ 90 := UInt32.le_iff_toNat_le.mp hupper
  omega

theorem toLower_eq_space_iff {c : Char} : c.toLower = ' ' ↔ c = ' ' := by
  by_cases h : c.toNat < 128
  · exact forall_ascii (P := fun c => c.toLower = ' ' ↔ c = ' ') (by decide) h
  · rw [toLower_of_le (by omega)]

theorem isBlank_toLower (c : Char) : isBlank c.toLower = isBlank c := by
  by_cases h : c.toNat < 128
  · exact forall_ascii (P := fun c => isBlank c.toLower = isBlank c) (by decide) h
  · rw [toLower_of_le (by omega)]

theorem Telling.tail {c : Char} {word : List Char} (h : Telling (c :: word)) : Telling word where
  ascii d hd := h.ascii d (List.mem_cons_of_mem c hd)
  no_kelvin hk := h.no_kelvin (List.mem_cons_of_mem c hk)
  no_dotted hi := by
    cases word with
    | nil => cases hi
    | cons d word => exact h.no_dotted (by rwa [List.getLast?_cons_cons])

variable {c w : Char} {part word cs folded : List Char}

-- Beyond ASCII no lower case starts a word that tells. It starts beyond ASCII, or with a `k`,
-- or with an `i` that the dot parts from what follows.
theorem LowerOf.not_starts (h : LowerOf c part) (hc : 128 ≤ c.toNat) (hw : Telling (w :: word)) :
    ¬ w :: word <+: part ++ folded := by
  have hascii : w.toNat < 128 := hw.ascii w List.mem_cons_self
  have hbeyond : ∀ d ds, 128 ≤ d.toNat → ¬ w :: word <+: d :: ds := by
    intro d ds hd hstarts
    obtain ⟨rfl, -⟩ := List.cons_prefix_cons.mp hstarts
    omega
  cases h with
  | listed =>
      rw [lower]
      split_ifs with hupper hdotted hkelvin
      · have : c.toNat ≤ 90 := UInt32.le_iff_toNat_le.mp hupper.2
        omega
      · intro hstarts
        obtain ⟨rfl, hbehind⟩ := List.cons_prefix_cons.mp hstarts
        cases word with
        | nil => exact hw.no_dotted rfl
        | cons d word =>
            obtain ⟨rfl, -⟩ := List.cons_prefix_cons.mp hbehind
            exact absurd (hw.ascii _ (by simp)) (by decide : ¬ (Char.ofNat 0x307).toNat < 128)
      · intro hstarts
        obtain ⟨rfl, -⟩ := List.cons_prefix_cons.mp hstarts
        exact hw.no_kelvin List.mem_cons_self
      · exact hbeyond c _ hc
  | beyond _ _ _ hne hpart =>
      obtain ⟨d, ds, rfl⟩ := List.exists_cons_of_ne_nil hne
      exact hbeyond d _ (hpart d List.mem_cons_self)

theorem LowerOf.cons_prefix_iff (h : LowerOf c part) (hw : Telling (w :: word)) :
    w :: word <+: part ++ folded ↔ c.toLower = w ∧ word <+: folded := by
  by_cases hc : c.toNat < 128
  · have hpart : part = [c.toLower] := by
      cases h with
      | listed => exact lower_of_lt hc
      | beyond hle => omega
    rw [hpart, List.singleton_append, List.cons_prefix_cons, eq_comm]
  · have hle : 128 ≤ c.toNat := by omega
    refine iff_of_false (h.not_starts hle hw) ?_
    rintro ⟨hlower, -⟩
    have := hw.ascii w List.mem_cons_self
    rw [← hlower, toLower_of_le hle] at this
    omega

theorem Lowers.prefix_iff (h : Lowers cs folded) (hw : Telling word) :
    word <+: folded ↔ ∃ spelled rest, cs = spelled ++ rest ∧ spelled.map Char.toLower = word := by
  induction h generalizing word with
  | nil =>
      rw [List.prefix_nil]
      constructor
      · rintro rfl
        exact ⟨[], [], rfl, rfl⟩
      · rintro ⟨spelled, rest, hnil, rfl⟩
        rw [(List.append_eq_nil_iff.mp hnil.symm).1, List.map_nil]
  | @cons c part cs folded hpart _ ih =>
      cases word with
      | nil => exact iff_of_true List.nil_prefix ⟨[], c :: cs, rfl, rfl⟩
      | cons w word =>
          rw [hpart.cons_prefix_iff hw, ih hw.tail]
          constructor
          · rintro ⟨rfl, spelled, rest, rfl, rfl⟩
            exact ⟨c :: spelled, rest, rfl, rfl⟩
          · rintro ⟨_ | ⟨d, spelled⟩, rest, hcs, hmap⟩
            · cases hmap
            · obtain ⟨rfl, rfl⟩ := List.cons.inj hcs
              obtain ⟨hlower, hword⟩ := List.cons.inj hmap
              exact ⟨hlower, spelled, rest, rfl, hword⟩

end CallWatch.Text

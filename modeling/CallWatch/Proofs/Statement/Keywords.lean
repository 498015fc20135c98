import CallWatch.Proofs.Text.Lowering
import CallWatch.Proofs.Text.Spans
import CallWatch.Statement

namespace CallWatch

namespace Statement

-- Behind blanks the text starts with a word, in any mix of upper and lower case, and a space.
def Begins (word text : String) : Prop :=
  ∃ blanks spelled rest, (∀ c ∈ blanks, Text.isBlank c) ∧
    spelled.map Char.toLower = word.toList ∧ text.toList = blanks ++ (spelled ++ ' ' :: rest)

namespace Kind

-- The words that open a statement of a kind.
def words : Kind → List String
  | .select => ["select", "with"]
  | .insert => ["insert"]
  | .update => ["update"]
  | .delete => ["delete"]
  | .merge => ["merge"]
  | .other => []

inductive Reads (text : String) : Kind → Prop where
  | word {kind word} : word ∈ kind.words → Begins word text → Reads text kind
  | other : (∀ kind, ∀ word ∈ words kind, ¬ Begins word text) → Reads text .other

-- The kind that is read off a text in lower case.
def ofFolded (folded : List Char) : Kind :=
  match keywords.find? fun (word, _) => word.toList.isPrefixOf folded with
  | some (_, kind) => kind
  | none => .other

theorem classify_eq (text : String) :
    classify text = ofFolded (Text.lowerAll (Text.trimStart text.toList)) := rfl

theorem mem_keywords_iff {keyword : String} {kind : Kind} :
    (keyword, kind) ∈ keywords ↔ ∃ word ∈ kind.words, keyword = word ++ " " := by
  have hkeywords : keywords =
      all.flatMap fun kind => kind.words.map fun word => (word ++ " ", kind) := by
    decide
  have hall : ∀ kind : Kind, kind ∈ all := by
    intro kind
    cases kind <;> decide
  rw [hkeywords]
  simp [hall, eq_comm]

-- No keyword starts another one of a different kind.
theorem kind_eq_of_starts {folded : List Char} {a b : String × Kind} (ha : a ∈ keywords)
    (hb : b ∈ keywords) (hpa : a.1.toList <+: folded) (hpb : b.1.toList <+: folded) :
    a.2 = b.2 := by
  have hall : ∀ a ∈ keywords, ∀ b ∈ keywords, a.1.toList <+: b.1.toList → a.2 = b.2 := by decide
  rcases List.prefix_or_prefix_of_prefix hpa hpb with h | h
  · exact hall a ha b hb h
  · exact (hall b hb a ha h).symm

theorem ofFolded_eq_iff {folded : List Char} {kind : Kind} :
    ofFolded folded = kind ↔
      (∃ keyword, (keyword, kind) ∈ keywords ∧ keyword.toList <+: folded) ∨
        kind = .other ∧ ∀ e ∈ keywords, ¬ e.1.toList <+: folded := by
  rw [ofFolded]
  split
  · rename_i keyword found hfind
    have hmem := List.mem_of_find?_eq_some hfind
    have hmatch := List.find?_some hfind
    have hstarts : keyword.toList <+: folded := List.isPrefixOf_iff_prefix.mp hmatch
    constructor
    · rintro rfl
      exact .inl ⟨keyword, hmem, hstarts⟩
    · rintro (⟨other, hother, hp⟩ | ⟨-, hnone⟩)
      · exact kind_eq_of_starts hmem hother hstarts hp
      · exact absurd hstarts (hnone _ hmem)
  · rename_i hfind
    have hnone : ∀ e ∈ keywords, ¬ e.1.toList <+: folded := fun e he hstarts =>
      List.find?_eq_none.mp hfind e he (List.isPrefixOf_iff_prefix.mpr hstarts)
    constructor
    · rintro rfl
      exact .inr ⟨rfl, hnone⟩
    · rintro (⟨keyword, hmem, hstarts⟩ | ⟨rfl, -⟩)
      · exact absurd hstarts (hnone _ hmem)
      · rfl

theorem telling_of_mem_keywords {e : String × Kind} (he : e ∈ keywords) :
    Text.Telling e.1.toList := by
  have hall : ∀ e ∈ keywords, (e.1.toList.all fun c => c.toNat < 128) ∧ 'k' ∉ e.1.toList ∧
      e.1.toList.getLast? ≠ some 'i' := by
    decide
  obtain ⟨hascii, hkelvin, hdotted⟩ := hall e he
  exact ⟨fun c hc => of_decide_eq_true (List.all_eq_true.mp hascii c hc), hkelvin, hdotted⟩

-- A word is not blank, so the blanks in front of it are all that is skipped.
theorem begins_iff {kind : Kind} {word text : String} (hword : word ∈ kind.words) :
    Begins word text ↔ ∃ spelled rest, Text.trimStart text.toList = spelled ++ ' ' :: rest ∧
      spelled.map Char.toLower = word.toList := by
  constructor
  · rintro ⟨blanks, spelled, rest, hblanks, hspelled, htext⟩
    refine ⟨spelled, rest, Text.dropWhile_eq_iff.mpr ⟨blanks, htext, hblanks, ?_⟩, hspelled⟩
    have hall : ∀ word ∈ kind.words, word.toList.head?.any fun c => !Text.isBlank c := by
      cases kind <;> decide
    obtain ⟨w, hw, hblank⟩ := (Option.any_eq_true _ _).mp (hall word hword)
    rw [← hspelled, List.head?_map, Option.map_eq_some_iff] at hw
    obtain ⟨c, hc, rfl⟩ := hw
    rw [List.head?_append, hc, Option.some_or]
    intro d hd
    obtain rfl := Option.some.inj hd
    simpa [Text.isBlank_toLower] using hblank
  · rintro ⟨spelled, rest, htrim, hspelled⟩
    obtain ⟨blanks, htext, hblanks, -⟩ := Text.dropWhile_eq_iff.mp htrim
    exact ⟨blanks, spelled, rest, hblanks, hspelled, htext⟩

theorem keyword_prefix_iff {kind : Kind} {word text : String} {folded : List Char}
    (hword : word ∈ kind.words) (h : Text.Lowers (Text.trimStart text.toList) folded) :
    (word ++ " ").toList <+: folded ↔ Begins word text := by
  have hmem : (word ++ " ", kind) ∈ keywords := mem_keywords_iff.mpr ⟨word, hword, rfl⟩
  rw [h.prefix_iff (telling_of_mem_keywords hmem), begins_iff hword, String.toList_append]
  constructor
  · rintro ⟨spelled, rest, htrim, hspelled⟩
    obtain ⟨front, back, rfl, hfront, hback⟩ := List.map_eq_append_iff.mp hspelled
    obtain ⟨c, rfl, hc⟩ := List.map_eq_singleton_iff.mp hback
    obtain rfl := Text.toLower_eq_space_iff.mp hc
    exact ⟨front, rest, by rw [htrim, List.append_assoc, List.singleton_append], hfront⟩
  · rintro ⟨spelled, rest, htrim, hspelled⟩
    refine ⟨spelled ++ [' '], rest, ?_, ?_⟩
    · rw [htrim, List.append_assoc, List.singleton_append]
    · rw [List.map_append, hspelled]
      rfl

-- However the text is put into lower case.
theorem ofFolded_eq_iff_reads {text : String} {folded : List Char} {kind : Kind}
    (h : Text.Lowers (Text.trimStart text.toList) folded) :
    ofFolded folded = kind ↔ Reads text kind := by
  rw [ofFolded_eq_iff]
  constructor
  · rintro (⟨keyword, hmem, hstarts⟩ | ⟨rfl, hnone⟩)
    · obtain ⟨word, hword, rfl⟩ := mem_keywords_iff.mp hmem
      exact .word hword ((keyword_prefix_iff hword h).mp hstarts)
    · refine .other fun kind word hword hbegins => ?_
      exact hnone (word ++ " ", kind) (mem_keywords_iff.mpr ⟨word, hword, rfl⟩)
        ((keyword_prefix_iff hword h).mpr hbegins)
  · intro hreads
    cases hreads with
    | word hword hbegins =>
        exact .inl ⟨_, mem_keywords_iff.mpr ⟨_, hword, rfl⟩,
          (keyword_prefix_iff hword h).mpr hbegins⟩
    | other hnone =>
        refine .inr ⟨rfl, fun e he hstarts => ?_⟩
        obtain ⟨word, hword, hkeyword⟩ := mem_keywords_iff.mp he
        rw [hkeyword] at hstarts
        exact hnone e.2 word hword ((keyword_prefix_iff hword h).mp hstarts)

theorem classify_eq_iff_reads {text : String} {kind : Kind} :
    classify text = kind ↔ Reads text kind := by
  rw [classify_eq]
  exact ofFolded_eq_iff_reads (Text.lowers_lowerAll _)

end Kind

theorem Begins.append {word text : String} (h : Begins word text) (more : String) :
    Begins word (text ++ more) := by
  obtain ⟨blanks, spelled, rest, hblanks, hspelled, htext⟩ := h
  exact ⟨blanks, spelled, rest ++ more.toList, hblanks, hspelled, by simp [htext]⟩

-- The word that opens a statement tells its kind, in whatever case it is written and by
-- whatever rules the text is put into lower case. What follows the word and its space is not
-- looked at.
theorem Kind.classify_reads_word (text : String) :
    (∀ kind, classify text = kind ↔ Reads text kind) ∧
      (∀ folded, Text.Lowers (Text.trimStart text.toList) folded →
        ofFolded folded = classify text) ∧
      ∀ more, classify text ≠ .other → classify (text ++ more) = classify text := by
  refine ⟨fun kind => classify_eq_iff_reads, ?_, ?_⟩
  · intro folded hfolded
    exact (ofFolded_eq_iff_reads hfolded).mpr (classify_eq_iff_reads.mp rfl)
  · intro more hword
    generalize hkind : classify text = kind at hword ⊢
    cases classify_eq_iff_reads.mp hkind with
    | word hmem hbegins => exact classify_eq_iff_reads.mpr (.word hmem (hbegins.append more))
    | other => exact absurd rfl hword

theorem Kind.classify_reads_word_sigma :
    Text.Lowers (Text.trimStart "\u3000WiTh ΛΣ".toList) "with λς".toList ∧
      ofFolded "with λς".toList = classify "\u3000WiTh ΛΣ" ∧
      classify "\u3000WiTh ΛΣ" ≠ .other ∧
      classify ("\u3000WiTh ΛΣ" ++ "; DELETE FROM t") = classify "\u3000WiTh ΛΣ" := by
  have hlambda : Text.LowerOf 'Λ' ['λ'] :=
    .beyond (by decide) (by decide) (by decide) (by decide)
      (List.forall_mem_singleton.mpr (by decide))
  have hsigma : Text.LowerOf 'Σ' ['ς'] :=
    .beyond (by decide) (by decide) (by decide) (by decide)
      (List.forall_mem_singleton.mpr (by decide))
  have hfolded : Text.Lowers (Text.trimStart "\u3000WiTh ΛΣ".toList) "with λς".toList :=
    .cons .listed (.cons .listed (.cons .listed (.cons .listed (.cons .listed
      (.cons hlambda (.cons hsigma .nil))))))
  have hword : classify "\u3000WiTh ΛΣ" ≠ .other := by decide
  obtain ⟨-, hany, hmore⟩ := classify_reads_word "\u3000WiTh ΛΣ"
  exact ⟨hfolded, hany _ hfolded, hword, hmore _ hword⟩

-- The lower case of the dotted capital I starts with an `i`.
example : Kind.classify "wİth x" = .other := by decide

end Statement

end CallWatch

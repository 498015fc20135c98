import CallWatch.CallSite.Backtrace
import CallWatch.Proofs.Text.Lines
import CallWatch.Proofs.Text.Spans

namespace CallWatch.Backtrace

-- The first line of a frame: its number behind blanks, a colon, a space and its symbol.
def Heads (line symbol : List Char) : Prop :=
  ∃ blanks number, (∀ c ∈ blanks, Text.isBlank c) ∧ number ≠ [] ∧ (∀ c ∈ number, c.isDigit) ∧
    line = blanks ++ (number ++ ':' :: ' ' :: symbol)

-- A symbol of the capture itself, behind any number of opening brackets.
def Internal (symbol : List Char) : Prop :=
  ∃ brackets rest, ∃ p ∈ internalPrefixes,
    symbol = List.replicate brackets '<' ++ (p.toList ++ rest)

def HeadsCaller (line : List Char) : Prop :=
  ∃ symbol, Heads line symbol ∧ ¬ Internal symbol

theorem isBlank_eq_false_of_isDigit {c : Char} (h : c.isDigit) : Text.isBlank c = false := by
  have hrange : 48 ≤ c.toNat ∧ c.toNat ≤ 57 := Char.isDigit_iff_toNat.mp h
  simp only [Text.isBlank, Bool.or_eq_false_iff, Bool.and_eq_false_iff, decide_eq_false_iff_not,
    beq_eq_false_iff_ne]
  omega

theorem symbol?_eq_some_iff_cut {line symbol : List Char} :
    symbol? line = some symbol ↔
      (Text.trimStart line).takeWhile Char.isDigit ≠ [] ∧
        (Text.trimStart line).dropWhile Char.isDigit = ':' :: ' ' :: symbol := by
  simp only [symbol?]
  split
  · rename_i hnumber hrest
    simp [hnumber, hrest]
  · rename_i hnot
    constructor
    · intro h
      cases h
    · rintro ⟨hne, hrest⟩
      obtain ⟨d, ds, hnumber⟩ := List.exists_cons_of_ne_nil hne
      exact absurd hrest (hnot d ds symbol hnumber)

theorem symbol?_eq_some_iff {line symbol : List Char} :
    symbol? line = some symbol ↔ Heads line symbol := by
  rw [symbol?_eq_some_iff_cut]
  constructor
  · rintro ⟨hne, hrest⟩
    obtain ⟨hcut, hdigits, -⟩ := Text.takeWhile_dropWhile_eq_iff.mp ⟨rfl, hrest⟩
    obtain ⟨blanks, hline, hblanks, -⟩ := Text.dropWhile_eq_iff.mp
      (rfl : line.dropWhile Text.isBlank = Text.trimStart line)
    exact ⟨blanks, _, hblanks, hne, hdigits, hcut ▸ hline⟩
  · rintro ⟨blanks, number, hblanks, hne, hdigits, rfl⟩
    obtain ⟨d, ds, rfl⟩ := List.exists_cons_of_ne_nil hne
    have htrim : Text.trimStart (blanks ++ (d :: ds ++ ':' :: ' ' :: symbol)) =
        d :: ds ++ ':' :: ' ' :: symbol := by
      refine Text.dropWhile_eq_iff.mpr ⟨blanks, rfl, hblanks, fun c hc => ?_⟩
      obtain rfl := Option.some.inj hc
      exact isBlank_eq_false_of_isDigit (hdigits d List.mem_cons_self)
    have hcut := Text.takeWhile_dropWhile_eq_iff.mpr
      ⟨htrim, hdigits, fun c hc => by obtain rfl := Option.some.inj hc; rfl⟩
    exact ⟨by rwa [hcut.1], hcut.2⟩

theorem head?_ne_bracket {p : String} (hp : p ∈ internalPrefixes) (rest : List Char) :
    ∀ c ∈ (p.toList ++ rest).head?, (c == '<') = false := by
  have hall : ∀ p ∈ internalPrefixes, p.toList.head?.any (· != '<') := by decide
  obtain ⟨first, hfirst, hne⟩ := (Option.any_eq_true _ _).mp (hall p hp)
  intro c hc
  rw [List.head?_append, hfirst, Option.some_or] at hc
  obtain rfl := Option.some.inj hc
  simpa using hne

theorem isInternal_iff {symbol : List Char} : isInternal symbol ↔ Internal symbol := by
  simp only [isInternal, List.any_eq_true, List.isPrefixOf_iff_prefix]
  constructor
  · rintro ⟨p, hp, rest, hrest⟩
    obtain ⟨front, hsymbol, hfront, -⟩ := Text.dropWhile_eq_iff.mp hrest.symm
    have hbrackets : front = List.replicate front.length '<' :=
      List.eq_replicate_of_mem fun c hc => eq_of_beq (hfront c hc)
    exact ⟨front.length, rest, p, hp, hbrackets ▸ hsymbol⟩
  · rintro ⟨brackets, rest, p, hp, rfl⟩
    have hbrackets : ∀ c ∈ List.replicate brackets '<', (c == '<') = true := fun c hc =>
      beq_iff_eq.mpr (List.eq_of_mem_replicate hc)
    exact ⟨p, hp, rest,
      (Text.dropWhile_eq_iff.mpr ⟨_, rfl, hbrackets, head?_ne_bracket hp rest⟩).symm⟩

-- A single look at a line tells whether a caller starts there.
def headsCaller (line : List Char) : Bool :=
  (symbol? line).any fun symbol => !isInternal symbol

theorem headsCaller_iff {line : List Char} : headsCaller line ↔ HeadsCaller line := by
  simp only [headsCaller, HeadsCaller, Option.any_eq_true, ← symbol?_eq_some_iff, ← isInternal_iff,
    Bool.not_eq_true', Bool.not_eq_true]

variable {line : List Char} (rest : List (List Char))

theorem frames_of_symbol {symbol : List Char} (h : symbol? line = some symbol) :
    frames (line :: rest) = ([], ⟨symbol, line :: (frames rest).1⟩ :: (frames rest).2) := by
  simp only [frames, h]

theorem frames_of_no_symbol (h : symbol? line = none) :
    frames (line :: rest) = (line :: (frames rest).1, (frames rest).2) := by
  simp only [frames, h]

-- To cut lines into frames loses none.
theorem loose_append_flatMap_frames (lines : List (List Char)) :
    (frames lines).1 ++ (frames lines).2.flatMap (·.lines) = lines := by
  induction lines with
  | nil => rfl
  | cons line rest ih =>
      cases h : symbol? line with
      | some symbol =>
          rw [frames_of_symbol rest h, List.nil_append, List.flatMap_cons, List.cons_append, ih]
      | none => rw [frames_of_no_symbol rest h, List.cons_append, ih]

theorem callerLines_of_headsCaller (h : headsCaller line) :
    callerLines (line :: rest) = line :: rest := by
  obtain ⟨symbol, hsymbol, hcaller⟩ := (Option.any_eq_true _ _).mp h
  rw [callerLines, frames_of_symbol rest hsymbol, List.dropWhile_cons,
    if_neg (by simpa using hcaller), List.flatMap_cons, List.cons_append,
    loose_append_flatMap_frames]

theorem callerLines_of_not_headsCaller (h : ¬ headsCaller line) :
    callerLines (line :: rest) = callerLines rest := by
  cases hsymbol : symbol? line with
  | none => rw [callerLines, frames_of_no_symbol rest hsymbol, callerLines]
  | some symbol =>
      have hinternal : isInternal symbol := by simpa [headsCaller, hsymbol] using h
      rw [callerLines, frames_of_symbol rest hsymbol, List.dropWhile_cons, if_pos hinternal,
        callerLines]

-- Frames or not, lines are dropped up to the first that starts a caller.
theorem callerLines_eq (lines : List (List Char)) :
    callerLines lines = lines.dropWhile fun line => !headsCaller line := by
  induction lines with
  | nil => rfl
  | cons line rest ih =>
      by_cases h : headsCaller line
      · rw [callerLines_of_headsCaller rest h, List.dropWhile_cons_of_neg (by simp [h])]
      · rw [callerLines_of_not_headsCaller rest h, List.dropWhile_cons_of_pos (by simp [h]), ih]

-- What stands in front of the first caller is dropped, and from there on every line is kept
-- as it is, also where a later frame is one of the capture's own.
theorem callerFrames_drops_capture (backtrace : String) :
    ∃ lines, (∀ ls, Text.Lined backtrace.toList ls ↔ ls = lines) ∧
      ((∀ line ∈ lines, ¬ HeadsCaller line) ∧ callerFrames backtrace = "" ∨
        ∃ capture first after, lines = capture ++ first :: after ∧
          (∀ line ∈ capture, ¬ HeadsCaller line) ∧ HeadsCaller first ∧
          callerFrames backtrace = String.ofList (['\n'].intercalate (first :: after))) := by
  refine ⟨Text.lines backtrace.toList, fun ls => by rw [Text.lined_iff, eq_comm], ?_⟩
  obtain ⟨capture, hlines, hcapture, hfirst⟩ :=
    Text.dropWhile_eq_iff.mp (callerLines_eq (Text.lines backtrace.toList)).symm
  have hdropped : ∀ line ∈ capture, ¬ HeadsCaller line := fun line hline => by
    simpa [← headsCaller_iff] using hcapture line hline
  cases hkept : callerLines (Text.lines backtrace.toList) with
  | nil =>
      rw [hkept, List.append_nil] at hlines
      refine .inl ⟨hlines ▸ hdropped, ?_⟩
      rw [callerFrames, hkept]
      rfl
  | cons first after =>
      rw [hkept] at hlines hfirst
      refine .inr ⟨capture, first, after, hlines, hdropped, ?_, ?_⟩
      · simpa [← headsCaller_iff] using hfirst first rfl
      · rw [callerFrames, hkept, Text.joinLines]

end CallWatch.Backtrace

import CallWatch.Text.Glob.Braces

namespace CallWatch.Text.Glob

-- What one look at the glob decides: to go on from a state, to fall back on what
-- was kept for the case that nothing fits, or the answer.
inductive Move where
  | advance (s : State)
  | retreat (s : State)
  | answer (matched : Bool)

-- The character at `i`, where a backslash stands for what follows it. The index is
-- that of the last byte taken.
def unescape (g : Bytes) (i : Nat) (c : Char) : Option (Char × Nat) :=
  if c ≠ '\\' then some (c, i)
  else match g[i + 1]? with
    | none => none
    | some 'a' => some ('a', i + 1)
    | some 'b' => some (Char.ofNat 8, i + 1)
    | some 'n' => some ('\n', i + 1)
    | some 'r' => some ('\r', i + 1)
    | some 't' => some ('\t', i + 1)
    | some other => some (other, i + 1)

-- A double star takes separators along if it fills its part of the path.
def deepStar (g p : Bytes) (s : State) : State :=
  let last := skipDeep g g.size (s.glob + 2)
  let wild : Place := ⟨last - 2, s.text + 1⟩
  let s := { s with glob := last, wild }
  if last = g.size then { s with deep := wild }
  else if (last < 3 ∨ g[last - 3]? = some '/') ∧ g[last]? = some '/' then
    let whole := s.text = 0 ∨ (s.text < p.size ∧ p[s.text - 1]? = some '/')
    { s with glob := if whole then last + 1 else last, deep := wild }
  else s

def onStar (g p : Bytes) (s : State) : Move :=
  let s := if g[s.glob + 1]? = some '*' then deepStar g p s
    else { s with glob := s.glob + 1, wild := ⟨s.glob, s.text + 1⟩ }
  -- A single star does not pass a separator; the last double star has to.
  let s :=
    if s.deep.text ≠ s.wild.text ∧ p[s.text]? = some '/' then
      if 0 < s.deep.text ∧ s.text + 1 < p.size then
        { s with glob := s.deep.glob, wild := { s.wild with glob := s.deep.glob } }
      else { s with wild := { s.wild with text := 0 } }
    else s
  if !s.groups.isEmpty ∧ (g[s.glob]? = some ',' ∨ g[s.glob]? = some '}') then
    match endOfBraces g false s.glob with
    | (.invalid, _) => .answer false
    | (_, next) => .advance { s with glob := next }
  else .advance s

-- The members of a character class from `i` on: whether one of them is `c`, and the
-- index of the closing bracket or of the end. A bracket that comes first is a member.
def classMembers (g : Bytes) (c : Char) : Nat → Nat → Bool → Bool → Option (Bool × Nat)
  | 0, i, _, hit => some (hit, i)
  | n + 1, i, first, hit =>
      match g[i]? with
      | none => some (hit, i)
      | some sign =>
          if !first ∧ sign = ']' then some (hit, i)
          else match unescape g i sign with
            | none => none
            | some (low, i) =>
                match g[i + 1]?, g[i + 2]? with
                | some '-', some upper =>
                    if upper = ']' then classMembers g c n (i + 1) false (hit || low == c)
                    else match unescape g (i + 2) upper with
                      | none => none
                      | some (high, i) =>
                          classMembers g c n (i + 1) false (hit || (low ≤ c && c ≤ high))
                | _, _ => classMembers g c n (i + 1) false (hit || low == c)

def onClass (g : Bytes) (c : Char) (s : State) : Move :=
  let negated := g[s.glob + 1]? = some '^' ∨ g[s.glob + 1]? = some '!'
  let first := if negated then s.glob + 2 else s.glob + 1
  match classMembers g c (g.size + 1) first true false with
  | none => .answer false
  | some (hit, i) =>
      if g.size ≤ i then .answer false
      else if hit ≠ decide negated then .advance { s with glob := i + 1, text := s.text + 1 }
      else .retreat { s with glob := i + 1 }

def onCharacter (g : Bytes) (sign c : Char) (s : State) : Move :=
  match unescape g s.glob sign with
  | none => .answer false
  | some (expected, i) =>
      let s := { s with glob := i }
      if c ≠ expected then .retreat s
      else
        let s := if !s.groups.isEmpty ∧ 0 < i ∧ g[i - 1]? = some '}' then
            { s with longest := s.text }.leave
          else s
        let s := { s with glob := i + 1, text := s.text + 1 }
        .advance (if expected = '/' then s else { s with deep := { s.deep with text := 0 } })

-- The end of an alternative of the innermost group.
def onComma (s : State) : Move :=
  match s.groups with
  | [] => .retreat s
  | group :: _ => .advance
      { s with
        glob := s.glob + 1
        text := group.text
        wild := .unset
        deep := .unset
        longest := max s.longest s.text }

def onBrace (s : State) : Move :=
  .advance { s with glob := s.glob + 1, longest := max s.longest s.text }.leave

def look (g p : Bytes) (s : State) : Move :=
  match g[s.glob]?, p[s.text]? with
  | none, _ => .retreat s
  | some '*', _ => onStar g p s
  | some sign, c? =>
      if sign = '}' ∧ !s.groups.isEmpty then onBrace s
      else if sign = ',' ∧ !s.groups.isEmpty then onComma s
      else match c? with
        | none => .retreat s
        | some c =>
            if sign = '?' then
              if c = '/' then .retreat s
              else .advance { s with glob := s.glob + 1, text := s.text + 1 }
            else if sign = '[' then onClass g c s
            else if sign = '{' then
              if maxGroups ≤ s.groups.length then .answer false else .advance s.enter
            else onCharacter g sign c s

-- Nothing fits here. The last star takes more, or else the innermost group tries its
-- next alternative, or is left behind the longest that matched, or fails.
def retreat (g p : Bytes) (negated : Bool) (s : State) : Move :=
  match s.retry? p with
  | some s => .advance s
  | none =>
      match s.groups with
      | [] => .answer negated
      | group :: outer =>
          match endOfBraces g true s.glob with
          | (.invalid, _) => .answer false
          | (.comma, next) => .advance { s with glob := next, text := group.text }
          | (.brace, next) =>
              if 0 < s.longest then .advance { s with glob := next }.leave
              else
                let s := { s with
                  glob := group.glob
                  text := group.text
                  wild := group.wild
                  deep := group.deep
                  groups := outer }
                match s.retry? p with
                | some s => .advance s
                | none => .answer negated

def run (g p : Bytes) (negated : Bool) : Nat → State → Bool
  | 0, _ => false
  | fuel + 1, s =>
      if g.size ≤ s.glob ∧ p.size ≤ s.text then !negated
      else match look g p s with
        | .answer matched => matched
        | .advance s => run g p negated fuel s
        | .retreat s =>
            match retreat g p negated s with
            | .answer matched => matched
            | .advance s | .retreat s => run g p negated fuel s

-- No run has more steps than there are states, or it would come to one of them
-- again and never end.
def fuel (g p : Bytes) : Nat :=
  Nat.pow ((g.size + 3) * (p.size + 3)) 70

-- Exclamation marks in front negate the glob, each of them once more.
def matchesBytes (g p : Bytes) : Bool :=
  let marks := (g.toList.takeWhile (· = '!')).length
  run g p (marks % 2 = 1) (fuel g p) (.start marks)

end CallWatch.Text.Glob

namespace CallWatch.Text

-- Whether a text is of the form that a glob describes. `*` stands for any run of bytes
-- without a separator `/`, `**` for one with separators, `?` for one byte, `[a-z]` for
-- a class of bytes, `{a,b}` for alternatives.
def globMatches (glob text : String) : Bool :=
  Glob.matchesBytes (Glob.bytesOf glob) (Glob.bytesOf text)

end CallWatch.Text

import CallWatch.Text.Glob.State

namespace CallWatch.Text.Glob

-- Repeated double stars, each after a separator, say no more than one of them.
def skipDeep (g : Bytes) : Nat → Nat → Nat
  | 0, i => i
  | n + 1, i =>
      if g[i]? = some '/' ∧ g[i + 1]? = some '*' ∧ g[i + 2]? = some '*' then
        skipDeep g n (i + 3)
      else i

inductive BraceEnd where
  | invalid
  | comma
  | brace
deriving DecidableEq

-- Passes over the rest of a brace group, up to the end of the alternative if
-- `stopAtComma` and else to the end of the group. Signs in a character class and
-- escaped ones do not count. The answer has the index behind what was passed.
def skipBraces (g : Bytes) (stopAtComma : Bool) : Nat → Nat → Bool → Nat → BraceEnd × Nat
  | 0, i, _, _ => (.invalid, i)
  | n + 1, i, inClass, depth =>
      if depth = 0 then (.brace, i)
      else match g[i]? with
        | none => (.invalid, i)
        | some '{' =>
            skipBraces g stopAtComma n (i + 1) inClass (if inClass then depth else depth + 1)
        | some '}' =>
            skipBraces g stopAtComma n (i + 1) inClass (if inClass then depth else depth - 1)
        | some ',' =>
            if stopAtComma ∧ depth = 1 ∧ !inClass then (.comma, i + 1)
            else skipBraces g stopAtComma n (i + 1) inClass depth
        | some '*' =>
            if !inClass ∧ g[i + 1]? = some '*' then
              skipBraces g stopAtComma n (skipDeep g g.size (i + 2)) inClass depth
            else skipBraces g stopAtComma n (i + 1) inClass depth
        | some '[' => skipBraces g stopAtComma n (i + 1) true depth
        | some ']' => skipBraces g stopAtComma n (i + 1) false depth
        | some '\\' => skipBraces g stopAtComma n (i + 2) inClass depth
        | some _ => skipBraces g stopAtComma n (i + 1) inClass depth

-- Every step passes at least one byte, so the size of the glob bounds the steps.
def endOfBraces (g : Bytes) (stopAtComma : Bool) (i : Nat) : BraceEnd × Nat :=
  skipBraces g stopAtComma (g.size + 2) i false 1

end CallWatch.Text.Glob

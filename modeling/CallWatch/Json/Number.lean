import CallWatch.Count
import CallWatch.Json.Reader
import CallWatch.Text.Numeral

namespace CallWatch.Json

-- A number as far as it matters here: an integer that fits 64 bits, or any other,
-- which is kept as a double and never asked for.
inductive Number where
  | whole (i : Int)
  | double
deriving DecidableEq

namespace Number

-- The nearest number with 53 significant bits, to even on a tie.
def round53 (n : Nat) : Nat :=
  let shift := n.log2 - 52
  let unit := Nat.pow 2 shift
  let low := n % unit
  let down := n - low
  if 2 * low < unit ∨ (2 * low = unit ∧ (n / unit) % 2 = 0) then down else down + unit

-- A double is taken for a significand times a power of ten, each rounded, and then
-- their product. It must stay below the midpoint between the greatest double and
-- the next power of two.
def tooLarge (significand : Nat) (exponent : Int) : Bool :=
  match exponent with
  | .negSucc _ => false
  | .ofNat e =>
      significand ≠ 0 &&
        (308 < e || Nat.pow 2 1024 - Nat.pow 2 970 ≤ round53 significand * round53 (Nat.pow 10 e))

-- Takes digits into a significand for as long as it fits 64 bits. The second part
-- counts the digits that are left.
def accumulate (significand : Nat) : List Char → Nat × Nat
  | [] => (significand, 0)
  | c :: rest =>
      let next := significand * 10 + Text.digitValue c
      if next ≤ Count.limit then accumulate next rest else (significand, rest.length + 1)

def double? (significand : Nat) (exponent : Int) : Reader Number :=
  if tooLarge significand exponent then Reader.fail .malformed else pure double

def readSign : Reader Bool := do
  match ← Reader.peek? with
  | some '-' => Reader.advance; pure true
  | some '+' => Reader.advance; pure false
  | _ => pure false

-- What follows the exponent sign. An exponent beyond 31 bits leaves zero as it is and
-- makes every other number too large, or too small to tell from zero.
def readExponent (significand : Nat) (start : Int) : Reader Number := do
  let negative ← readSign
  match ← Reader.takeDigits with
  | [] => Reader.missing
  | ds =>
      let e := Text.valueOf ds
      if e ≤ 2147483647 then double? significand (if negative then start - e else start + e)
      else if negative ∨ significand = 0 then pure double
      else Reader.fail .malformed

def afterDigits (significand : Nat) (exponent : Int) : Reader Number := do
  match ← Reader.peek? with
  | some 'e' | some 'E' => do
      Reader.advance
      readExponent significand exponent
  | _ => double? significand exponent

def readFraction (significand : Nat) (exponent : Nat) : Reader Number := do
  match ← Reader.takeDigits with
  | [] => Reader.missing
  | ds =>
      let (significand, left) := accumulate significand ds
      afterDigits significand ((exponent : Int) - ((ds.length - left : Nat) : Int))

-- Minus zero is a double, and so is an integer below the 64-bit range.
def ofSignificand (negative : Bool) (significand : Nat) : Number :=
  if !negative then whole significand
  else if 0 < significand ∧ significand ≤ 9223372036854775808 then whole (-significand)
  else double

-- No digit may follow a leading zero.
def read : Reader Number := do
  let negative := (← Reader.peek?) == some '-'
  if negative then Reader.advance
  match ← Reader.takeDigits with
  | [] => Reader.missing
  | '0' :: _ :: _ => Reader.fail .malformed
  | ds =>
      let (significand, left) := accumulate 0 ds
      match ← Reader.peek? with
      | some '.' => do
          Reader.advance
          readFraction significand left
      | some 'e' | some 'E' => do
          Reader.advance
          readExponent significand left
      | _ =>
          if left = 0 then pure (ofSignificand negative significand)
          else double? significand left

-- A number that is passed over is looked at less closely: it may be of any size, and
-- one that is cut off counts as malformed.
def needDigits : Reader (List Char) := do
  match ← Reader.takeDigits with
  | [] => Reader.fail .malformed
  | ds => pure ds

def skipExponent : Reader Unit := do
  match ← Reader.peek? with
  | some 'e' | some 'E' => do
      Reader.advance
      let _ ← readSign
      let _ ← needDigits
  | _ => pure ()

def skip : Reader Unit := do
  if (← Reader.peek?) = some '-' then Reader.advance
  match ← needDigits with
  | '0' :: _ :: _ => Reader.fail .malformed
  | _ =>
      if (← Reader.peek?) = some '.' then do
        Reader.advance
        let _ ← needDigits
      skipExponent

end Number

end CallWatch.Json

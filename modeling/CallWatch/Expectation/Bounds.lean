import CallWatch.Count
import CallWatch.Text.Numeral

namespace CallWatch

-- Inclusive bounds on a count. The greatest count as an upper bound bounds nothing.
structure Bounds where
  min : Count
  max : Count
deriving DecidableEq

-- Why the parameters of an expectation contradict each other.
inductive Misconfiguration where
  | ambiguous
  | inverted (min max : Count)
  | missingBounds
  | conflicting (reason : String)
deriving DecidableEq

def Misconfiguration.message : Misconfiguration → String
  | .ambiguous => "an exact count cannot be combined with minimum or maximum bounds"
  | .inverted min max =>
      "minimum " ++ Text.showNat min.toNat ++ " is greater than maximum " ++ Text.showNat max.toNat
  | .missingBounds => "expectation has no bounds"
  | .conflicting reason => "conflicting expectation parameters: " ++ reason

namespace Bounds

def exactly (n : Count) : Bounds :=
  ⟨n, n⟩

def never : Bounds :=
  exactly 0

def atLeast (n : Count) : Bounds :=
  ⟨n, .greatest⟩

def atMost (n : Count) : Bounds :=
  ⟨0, n⟩

def between (min max : Count) : Except Misconfiguration Bounds :=
  if max < min then .error (.inverted min max) else .ok ⟨min, max⟩

def contains (b : Bounds) (n : Count) : Bool :=
  b.min ≤ n && n ≤ b.max

-- An exact value stands alone. A missing minimum is zero, a missing maximum is none;
-- without any of the three there are no bounds.
def combine (value min max : Option Count) : Except Misconfiguration (Option Bounds) :=
  match value, min, max with
  | none, none, none => .ok none
  | none, min, max => (between (min.getD 0) (max.getD .greatest)).map some
  | some value, none, none => .ok (some (exactly value))
  | some _, _, _ => .error .ambiguous

def display (b : Bounds) : String :=
  if b.min = b.max then "exactly " ++ Text.showNat b.min.toNat
  else if b.max = .greatest then "at least " ++ Text.showNat b.min.toNat
  else "between " ++ Text.showNat b.min.toNat ++ " and " ++ Text.showNat b.max.toNat

end Bounds

end CallWatch

import CallWatch.Fault.Status
import CallWatch.Fault.Target

namespace CallWatch.Fault

-- Rules in the order in which their patterns were first named.
abbrev Rules (π : Type) :=
  List (π × Status)

-- What a resolved target turned out to be: held by a rule, put down as open just
-- now, or put down as open before.
inductive Resolution where
  | matched (status : Status)
  | registered
  | known
deriving DecidableEq

def Resolution.status : Resolution → Status
  | .matched status => status
  | .registered | .known => .opened

namespace Rules

variable {π τ : Type} [DecidableEq π] [Pattern π τ]

-- Changes the rule of a pattern in place or adds it at the end.
def set (pattern : π) (status : Status) : Rules π → Rules π
  | [] => [(pattern, status)]
  | (p, s) :: rest =>
      if p = pattern then (p, status) :: rest else (p, s) :: set pattern status rest

def status? (rules : Rules π) (pattern : π) : Option Status :=
  (List.find? (·.1 = pattern) rules).map (·.2)

theorem status?_set (rules : Rules π) (p q : π) (status : Status) :
    (rules.set p status).status? q = if p = q then some status else rules.status? q := by
  induction rules with
  | nil => by_cases h : p = q <;> simp [set, status?, h]
  | cons rule rest ih =>
    obtain ⟨r, s⟩ := rule
    simp only [status?] at ih ⊢
    by_cases hr : r = p
    · subst hr
      by_cases h : r = q <;> simp [set, h]
    · by_cases hq : r = q
      · subst hq
        simp [set, hr, Ne.symm hr]
      · simp only [set, hr, if_false, List.find?_cons, hq, decide_false]
        exact ih

-- The first rule that accepts the target and is not open.
def faultFor? (rules : Rules π) (target : τ) : Option Status :=
  (List.find? (fun r => !r.2.isOpen && Pattern.accepts r.1 target) rules).map (·.2)

-- A target that no rule holds is put down under its exact pattern as open.
def resolve (rules : Rules π) (target : τ) : Resolution × Rules π :=
  match rules.faultFor? target with
  | some status => (.matched status, rules)
  | none =>
      let exact : π := Pattern.exact target
      if rules.status? exact = some .opened then (.known, rules)
      else (.registered, rules.set exact .opened)

end Rules

end CallWatch.Fault

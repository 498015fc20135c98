import CallWatch.Fault.Registry

namespace CallWatch.Fault

-- What a connection is attempted to.
inductive Destination where
  | socket (socket : Socket)
  | source (source : DataSource)
deriving DecidableEq

def Destination.display : Destination → String
  | .socket s => s.address
  | .source d => d.display

-- How a caller may break an attempt off: cancel it, before it starts or some
-- milliseconds after, or abandon it some milliseconds after its start.
inductive Cancellation where
  | before
  | after (millis : Nat)
deriving DecidableEq

structure Interruption where
  cancel : Option Cancellation
  abandon : Option Nat
deriving DecidableEq

structure Refusal where
  target : String
  status : Status
deriving DecidableEq

def Refusal.message (r : Refusal) : String :=
  "connection to " ++ r.target ++ " refused (injected status " ++ r.status.display ++ ")"

inductive Decision where
  | proceed
  | delayed (millis : Nat)
  | refused (refusal : Refusal)
deriving DecidableEq

def Decision.proceeds : Decision → Bool
  | .refused _ => false
  | _ => true

inductive Attempt.Outcome where
  | decided (decision : Decision)
  | cancelled (target : String)
  | abandoned
deriving DecidableEq

def Attempt.cancelledMessage (target : String) : String :=
  "connection to " ++ target ++ " cancelled while delayed"

-- An attempt ends with an outcome after a wait on the caller's clock.
structure Attempt where
  waited : Nat
  outcome : Attempt.Outcome
  events : List Event

def Interruption.cancelTime? (i : Interruption) : Option Nat :=
  i.cancel.map fun
    | .before => 0
    | .after millis => millis

namespace Attempt

-- How a wait of `wait` milliseconds ends early, and when: by whichever comes first.
def breakOff? (i : Interruption) (target : String) (wait : Nat) : Option (Nat × Outcome) :=
  let cancel := i.cancelTime?.map fun time => (time, Outcome.cancelled target)
  let abandon := i.abandon.map fun time => (time, Outcome.abandoned)
  let first := match cancel, abandon with
    | some c, some a => some (if c.1 ≤ a.1 then c else a)
    | some c, none => some c
    | none, a => a
  first.filter fun f => f.1 < wait

def delaying (target : String) (millis : Nat) : Event :=
  ⟨.debug, "delaying connection", [("endpoint", target), ("delay_ms", Text.showNat millis)]⟩

def refusing (target : String) (status : Status) : Event :=
  ⟨.debug, "refusing connection", [("endpoint", target), ("status", status.display)]⟩

-- What follows once there is nothing more to wait for.
def decide (status : Status) (target : String) (waited : Option Nat) : Decision × List Event :=
  if status.refuses then (.refused ⟨target, status⟩, [refusing target status])
  else match waited with
    | some millis => (.delayed millis, [])
    | none => (.proceed, [])

-- An attempt under a resolved status. Without a wait there is nothing to break off.
def run (status : Status) (target : String) (i : Interruption) : Attempt :=
  match status.wait? with
  | none =>
      let (decision, events) := decide status target none
      ⟨0, .decided decision, events⟩
  | some wait =>
      match breakOff? i target wait with
      | some (time, outcome) => ⟨time, outcome, [delaying target wait]⟩
      | none =>
          let (decision, events) := decide status target (some wait)
          ⟨wait, .decided decision, delaying target wait :: events⟩

end Attempt

-- An attempt resolves its target and then follows the status.
def Registry.connect (r : Registry) (target : Destination) (scope : Option Nat)
    (i : Interruption) : Attempt × Registry × Effects :=
  let (status, r, effects) := match target with
    | .socket s => r.resolveSocket s scope
    | .source d => r.resolveSource d scope
  let attempt := Attempt.run status target.display i
  (attempt, r, effects ++ ⟨attempt.events, []⟩)

end CallWatch.Fault

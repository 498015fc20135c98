import CallWatch.Event
import CallWatch.Window.Verify

namespace CallWatch

-- How a callback ends: with a value, with an error, or in a panic.
inductive Ending (α : Type) where
  | value (a : α)
  | failure (error : String)
  | panic (message : String)

-- How a guarded callback ends for its caller. An error of the callback stays in
-- front, and a failed verification goes along as suppressed.
inductive Outcome (α : Type) where
  | value (a : α)
  | failed (error : WindowError)
  | callbackFailed (error : String) (suppressed : Option WindowError)
  | returnedFailure (error : String)
  | escaped (panic : String)
  | resumed (panic : String)

-- Two ways to guard a callback. `execute` knows callbacks that fail and lets a panic
-- escape at once. `run` takes an error for a value like any other, and verifies
-- before it resumes a panic.
inductive Guard where
  | execute
  | run
deriving DecidableEq

namespace Guard

def maskedFailure (error : WindowError) : Event :=
  ⟨.error, "verification failed while callback panicked", [("error", error.message)]⟩

def callbackMessage (error : String) : String :=
  "callback failed: " ++ error

-- The outcome for a caller, given how the callback ended and what a verification
-- finds after it.
def conclude {α : Type} (guard : Guard) (ending : Ending α) (found : Option WindowError) :
    Outcome α × List Event :=
  match guard, ending, found with
  | _, .value a, none => (.value a, [])
  | _, .value _, some error => (.failed error, [])
  | .execute, .failure callback, found => (.callbackFailed callback found, [])
  | .execute, .panic message, _ => (.escaped message, [])
  | .run, .failure callback, none => (.returnedFailure callback, [])
  | .run, .failure _, some error => (.failed error, [])
  | .run, .panic message, found => (.resumed message, (found.map maskedFailure).toList)

end Guard

end CallWatch

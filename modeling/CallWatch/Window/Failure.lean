import CallWatch.Window.Basic

namespace CallWatch

-- An expectation that a window does not meet: the bound that is broken, what was
-- observed, and the calls that the expectation is about.
structure Failure where
  threads : ThreadScope
  endpoint : EndpointFilter
  measure : Measure
  bounds : Bounds
  observed : Count
  records : Summary

namespace Failure

def subject (f : Failure) : String :=
  match f.measure with
  | .calls => f.endpoint.describe
  | measure => measure.display ++ " of " ++ f.endpoint.describe

def recordLine (entry : Key × Tally) : String :=
  let (key, t) := entry
  let thread := match key.origin.thread with
    | some thread => " [" ++ thread.display ++ "]"
    | none => ""
  let counts := match key.endpoint with
    | .statement _ =>
        "; /* " ++ Text.showNat t.calls.toNat ++ " calls, " ++ Text.showNat t.rows.toNat ++
          " rows */"
    | .socket _ =>
        " /* " ++ Text.showNat t.calls.toNat ++ " calls, " ++ Text.showNat t.bytesDown.toNat ++
          " bytes down, " ++ Text.showNat t.bytesUp.toNat ++ " bytes up */"
  "\n  " ++ key.endpoint.display ++ thread ++ counts

def message (f : Failure) : String :=
  "Expected " ++ f.bounds.display ++ f.threads.describe ++ " " ++ f.subject ++
    "\nObserved " ++ Text.showNat f.observed.toNat ++ " " ++ f.subject ++ " instead:" ++
    String.join (f.records.toList.map recordLine)

end Failure

-- A failure that a verification reports, with the one that is taken for its cause, which
-- may have a cause in turn.
structure Failures where
  first : Failure
  cause? : Option Failures

namespace Failures

-- The failures that are met from cause to cause.
def toList : Failures → List Failure
  | ⟨first, none⟩ => [first]
  | ⟨first, some cause⟩ => first :: cause.toList

-- Failures are chained from the last one on: what is chained so far becomes the cause of
-- the failure before it.
def ofList? (found : List Failure) : Option Failures :=
  found.reverse.foldl (fun cause? failure => some ⟨failure, cause?⟩) none

def message (f : Failures) : String :=
  f.first.message

end Failures

-- Why an operation on a window fails.
inductive WindowError where
  | verification (failures : Failures)
  | closed (site : String)
  | misconfigured (cause : Misconfiguration)

def WindowError.message : WindowError → String
  | .verification failures => failures.message
  | .closed site => "spy is closed (closed at " ++ site ++ ")"
  | .misconfigured cause => cause.message

end CallWatch

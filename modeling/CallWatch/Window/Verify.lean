import CallWatch.Window.Failure

namespace CallWatch.Window

-- Checks one expectation now. Calls of one endpoint and thread are shown together.
def check (w : Window) (ledger : Ledger) (e : Expectation) : Option Failure :=
  let scope := e.threads.getD w.threads
  let total := w.totals ledger scope e.endpoint
  (e.firstBroken? total).map fun (measure, bounds) =>
    { threads := scope
      endpoint := e.endpoint
      measure
      bounds
      observed := measure.of total
      records := w.diff ledger scope e.endpoint .withoutSite }

-- Every failure of the registered expectations, in their order.
def failures (w : Window) (ledger : Ledger) : List Failure :=
  w.expectations.filterMap (w.check ledger)

def verifyAll (w : Window) (ledger : Ledger) : Option WindowError :=
  (Failures.ofList? (w.failures ledger)).map .verification

-- An operation on an open window; a closed one tells where it was closed.
def whenOpen {α : Type} (w : Window) (result : α) : Except WindowError α :=
  match w.closedAt with
  | some site => .error (.closed site)
  | none => .ok result

-- Closes an open window for good, whether or not its expectations are met.
def close (w : Window) (ledger : Ledger) (site : String) : Window × Except WindowError Unit :=
  match w.closedAt with
  | some earlier => (w, .error (.closed earlier))
  | none =>
      ({ w with closedAt := some site },
        match w.verifyAll ledger with
        | some failure => .error failure
        | none => .ok ())

end CallWatch.Window

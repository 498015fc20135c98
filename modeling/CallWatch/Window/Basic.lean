import CallWatch.Config.Basic
import CallWatch.Expectation.Basic
import CallWatch.Ledger
import CallWatch.Traffic

namespace CallWatch

-- An observation window. It counts nothing itself: what it shows is the ledger and
-- the traffic of the moment less what they held when the window was opened or last
-- reset. The thread that opened it owns it.
structure Window where
  owner : Nat
  threads : ThreadScope
  mergeWithin : Span
  calls : Summary
  marks : Marks
  expectations : List Expectation
  closedAt : Option String

namespace Window

def openOn (config : Config) (owner : Nat) (ledger : Ledger) (traffic : Traffic) : Window :=
  ⟨owner, config.threads, config.mergeWithin, ledger.snapshot, traffic.marks, [], none⟩

def isClosed (w : Window) : Bool :=
  w.closedAt.isSome

-- Which keys a window shows under a thread scope and an endpoint filter.
def shows (w : Window) (scope : ThreadScope) (filter : EndpointFilter) (key : Key) : Bool :=
  filter.accepts key.endpoint && scope.accepts key.origin w.owner

-- What a key gained since the window's beginning.
def gain (w : Window) (key : Key) (now : Tally) : Tally :=
  match w.calls.get? key with
  | some before => now - before
  | none => now

-- The keys that gained anything, with their gains, in the order of the ledger.
def gains (w : Window) (ledger : Ledger) (scope : ThreadScope) (filter : EndpointFilter) :
    List (Key × Tally) :=
  ((ledger.summary (w.shows scope filter) .full).toList.map fun (key, now) =>
    (key, w.gain key now)).filter fun (_, gain) => !gain.isZero

def diff (w : Window) (ledger : Ledger) (scope : ThreadScope) (filter : EndpointFilter)
    (detail : Detail) : Summary :=
  .ofList ((w.gains ledger scope filter).map fun (key, gain) => (key.coarsen detail, gain))

-- What all calls together gained. The share of other threads is what the whole has
-- over the owner's.
def totals (w : Window) (ledger : Ledger) (scope : ThreadScope) (filter : EndpointFilter) :
    Tally :=
  match scope with
  | .others =>
      (w.diff ledger .any filter .endpointOnly).total -
        (w.diff ledger .current filter .endpointOnly).total
  | scope => (w.diff ledger scope filter .endpointOnly).total

def packets (w : Window) (traffic : Traffic) (scope : ThreadScope) (filter : EndpointFilter)
    (detail : Detail) : List Traffic.Stream :=
  traffic.packets (w.shows scope filter) detail w.marks w.mergeWithin

def expect (w : Window) (e : Expectation) : Window :=
  { w with expectations := w.expectations ++ [e] }

-- Begins anew, without expectations.
def restart (w : Window) (ledger : Ledger) (traffic : Traffic) : Window :=
  { w with calls := ledger.snapshot, marks := traffic.marks, expectations := [] }

end Window

end CallWatch

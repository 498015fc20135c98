import CallWatch.Event
import CallWatch.Fault.Document

namespace CallWatch.Fault

-- Where a registry is saved: an outside store that is handed whole documents. It
-- answers the n-th of them with an error text or with nothing.
structure Keeper where
  handed : Nat
  answer : Nat → Option String

-- What an operation does besides changing the registry: what it logs and which
-- documents it hands to the keeper.
structure Effects where
  events : List Event
  documents : List Document

namespace Effects

def none : Effects :=
  ⟨[], []⟩

def log (event : Event) : Effects :=
  ⟨[event], []⟩

instance : Append Effects :=
  ⟨fun a b => ⟨a.events ++ b.events, a.documents ++ b.documents⟩⟩

end Effects

-- Scopes are tables that callers hold and may let go of. The registry tracks them
-- by number, without keeping them alive.
structure Registry where
  rules : Table
  held : List (Nat × Table)
  tracked : List Nat
  nextScope : Nat
  threadLocal : Bool
  persistent : Bool
  keeper : Option Keeper

namespace Registry

def empty : Registry :=
  ⟨.empty, [], [], 0, false, false, none⟩

def setKeeper (r : Registry) (answer : Nat → Option String) : Registry :=
  { r with keeper := some ⟨0, answer⟩ }

def setPersistent (r : Registry) (persistent : Bool) : Registry :=
  { r with persistent }

def setThreadLocal (r : Registry) (threadLocal : Bool) : Registry :=
  { r with threadLocal }

def document (r : Registry) : Document :=
  .ofTable r.persistent r.rules

def saveFailed (reason : String) : Event :=
  ⟨.warn, "failed to persist fault registry", [("error", reason)]⟩

-- Hands the registry over as it is, if it is persistent and has a keeper. A keeper
-- that fails is logged and changes nothing else.
def save (r : Registry) : Registry × Effects :=
  match r.persistent, r.keeper with
  | true, some keeper =>
      let failure := (keeper.answer keeper.handed).map saveFailed
      ({ r with keeper := some { keeper with handed := keeper.handed + 1 } },
        ⟨failure.toList, [r.document]⟩)
  | _, _ => (r, .none)

-- The table of a scope that its caller still holds.
def scope? (r : Registry) (scope : Nat) : Option Table :=
  (r.held.find? (·.1 = scope)).map (·.2)

def isHeld (r : Registry) (scope : Nat) : Bool :=
  r.held.any (·.1 = scope)

def newScope (r : Registry) : Registry × Nat :=
  ({ r with
    held := r.held ++ [(r.nextScope, .empty)]
    tracked := r.tracked.filter r.isHeld ++ [r.nextScope]
    nextScope := r.nextScope + 1 }, r.nextScope)

def dropScope (r : Registry) (scope : Nat) : Registry :=
  { r with held := r.held.filter (·.1 ≠ scope) }

def updateScope (r : Registry) (scope : Nat) (f : Table → Table) : Registry :=
  { r with held := r.held.map fun (n, t) => if n = scope then (n, f t) else (n, t) }

-- The table of a scope if one is named, else the global one.
def table (r : Registry) : Option Nat → Table
  | some scope => (r.scope? scope).getD .empty
  | none => r.rules

-- The scope that a resolution looks at first, which the flag may forbid.
def consulted? (r : Registry) (scope : Option Nat) : Option Table :=
  if r.threadLocal then scope.bind r.scope? else none

def socketDiscovered (socket : Socket) : Event :=
  ⟨.debug, "discovered socket endpoint", [("endpoint", socket.address)]⟩

def sourceDiscovered (source : DataSource) : Event :=
  ⟨.debug, "discovered data source", [("data_source", source.display)]⟩

-- A newly registered target is logged and saved.
def settle (r : Registry) (resolution : Resolution) (discovered : Event) :
    Registry × Effects :=
  match resolution with
  | .registered =>
      let (r, effects) := r.save
      (r, .log discovered ++ effects)
  | .matched _ | .known => (r, .none)

def resolveSocket (r : Registry) (socket : Socket) (scope : Option Nat) :
    Status × Registry × Effects :=
  match (r.consulted? scope).bind (·.findSocket? socket) with
  | some status => (status, r, .none)
  | none =>
      let (resolution, sockets) := r.rules.sockets.resolve socket
      (resolution.status,
        { r with rules := { r.rules with sockets } }.settle resolution (socketDiscovered socket))

def resolveSource (r : Registry) (source : DataSource) (scope : Option Nat) :
    Status × Registry × Effects :=
  match (r.consulted? scope).bind (·.findSource? source) with
  | some status => (status, r, .none)
  | none =>
      let (resolution, sources) := r.rules.sources.resolve source
      (resolution.status,
        { r with rules := { r.rules with sources } }.settle resolution (sourceDiscovered source))

def setSocket (r : Registry) (pattern : SocketPattern) (status : Status) :
    Registry × Effects :=
  let changed : Event := ⟨.info, "socket status changed",
    [("pattern", pattern.display), ("status", status.display)]⟩
  let (r, effects) := { r with rules := r.rules.setSocket pattern status }.save
  (r, .log changed ++ effects)

def setSource (r : Registry) (pattern : SourcePattern) (status : Status) :
    Registry × Effects :=
  let changed : Event := ⟨.info, "data source status changed",
    [("pattern", pattern.display), ("status", status.display)]⟩
  let (r, effects) := { r with rules := r.rules.setSource pattern status }.save
  (r, .log changed ++ effects)

def cleared : Event :=
  ⟨.info, "fault registry cleared", []⟩

-- Empties the global table and every tracked scope that is still held, forgets the
-- scopes that are not, and turns persistence off.
def clear (r : Registry) : Registry × Effects :=
  ({ r with
    rules := .empty
    held := r.held.map fun (n, t) => if n ∈ r.tracked then (n, .empty) else (n, t)
    tracked := r.tracked.filter r.isHeld
    persistent := false }, .log cleared)

-- Enters a document's rules and takes over its flag, without saving.
def load (r : Registry) (d : Document) : Registry :=
  { r with rules := d.enter r.rules, persistent := d.persistent }

end Registry

end CallWatch.Fault

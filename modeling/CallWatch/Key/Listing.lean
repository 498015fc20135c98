import CallWatch.Key

namespace CallWatch.Key

-- The order in which keys are listed where their first recording does not tell one:
-- sockets before statements, then by shown endpoint, connection, resolved address,
-- statement kind, thread and call site. A missing part comes first.

def compareMissing {α : Type} [Ord α] : Option α → Option α → Ordering
  | none, none => .eq
  | none, some _ => .lt
  | some _, none => .gt
  | some a, some b => compare a b

def connection : Endpoint → Int
  | .socket s => s.connection.toInt
  | .statement _ => 0

def resolved : Endpoint → Option String
  | .socket s => s.resolved
  | .statement _ => none

def kindName : Endpoint → String
  | .socket _ => ""
  | .statement s => s.kind.name

def rank : Endpoint → Nat
  | .socket _ => 0
  | .statement _ => 1

def compareListed (a b : Key) : Ordering :=
  (compare (rank a.endpoint) (rank b.endpoint)).then <|
  (compare a.endpoint.display b.endpoint.display).then <|
  (compare (connection a.endpoint) (connection b.endpoint)).then <|
  (compareMissing (resolved a.endpoint) (resolved b.endpoint)).then <|
  (compare (kindName a.endpoint) (kindName b.endpoint)).then <|
  (compareMissing a.origin.threadId? b.origin.threadId?).then <|
  compareMissing (a.origin.site.map (·.frames)) (b.origin.site.map (·.frames))

def listed {α : Type} (entries : List (Key × α)) : List (Key × α) :=
  entries.mergeSort fun a b => (compareListed a.1 b.1).isLE

end CallWatch.Key

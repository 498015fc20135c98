import CallWatch.Expectation.Basic

namespace CallWatch

-- What can be said of an expectation while it is put together, one clause at a time.
inductive Clause where
  | exactly (n : Count)
  | never
  | atLeast (n : Count)
  | atMost (n : Count)
  | between (min max : Count)
  | rows (n : Count)
  | minRows (n : Count)
  | maxRows (n : Count)
  | bytesDown (bounds : Bounds)
  | bytesUp (bounds : Bounds)
  | threads (scope : ThreadScope)
  | kind (kind : Statement.Kind)
  | matching (pattern : TextPattern)
  | address (address : String)
  | endpoint (filter : EndpointFilter)
deriving DecidableEq

inductive Subject where
  | statements
  | sockets
  | anything
deriving DecidableEq

def Subject.filter : Subject → EndpointFilter
  | .statements => .anyStatement
  | .sockets => .anySocket
  | .anything => .every

-- The three ways in which a count can be bounded, as far as they were given.
structure Slots where
  value : Option Count
  min : Option Count
  max : Option Count
deriving DecidableEq

namespace Slots

def empty : Slots :=
  ⟨none, none, none⟩

def combine (s : Slots) : Except Misconfiguration (Option Bounds) :=
  Bounds.combine s.value s.min s.max

end Slots

-- An expectation in the making. A later clause replaces an earlier one of its kind;
-- of contradictions about the endpoint the first is kept.
structure Draft where
  threads : Option ThreadScope
  endpoint : EndpointFilter
  calls : Slots
  rows : Slots
  bytesDown : Option Bounds
  bytesUp : Option Bounds
  conflict : Option String
deriving DecidableEq

namespace Draft

def start (subject : Subject) : Draft :=
  ⟨none, subject.filter, .empty, .empty, none, none, none⟩

def conflicting (d : Draft) (reason : String) : Draft :=
  { d with conflict := d.conflict <|> some reason }

-- A second kind must be the first one, and only statements have a kind.
def withKind (d : Draft) (kind : Statement.Kind) : Draft :=
  match d.endpoint with
  | .statements (some current) _ =>
      if current = kind then d else d.conflicting "more than one statement kind"
  | .statements none text => { d with endpoint := .statements (some kind) text }
  | _ => d.conflicting "a statement kind on a non-statement expectation"

-- A pattern is about statement texts or about socket addresses.
def withPattern (d : Draft) (pattern : TextPattern) : Draft :=
  match d.endpoint with
  | .statements kind _ => { d with endpoint := .statements kind pattern }
  | .sockets _ => { d with endpoint := .sockets pattern }
  | .every => d.conflicting "a pattern on an expectation over every endpoint"

def withAddress (d : Draft) (address : String) : Draft :=
  match d.endpoint with
  | .statements _ _ => d.conflicting "a socket address on a statement expectation"
  | _ => { d with endpoint := .address address }

def add (d : Draft) : Clause → Draft
  | .exactly n => { d with calls := { d.calls with value := some n } }
  | .never => { d with calls := { d.calls with value := some 0 } }
  | .atLeast n => { d with calls := { d.calls with min := some n } }
  | .atMost n => { d with calls := { d.calls with max := some n } }
  | .between min max => { d with calls := { d.calls with min := some min, max := some max } }
  | .rows n => { d with rows := { d.rows with value := some n } }
  | .minRows n => { d with rows := { d.rows with min := some n } }
  | .maxRows n => { d with rows := { d.rows with max := some n } }
  | .bytesDown bounds => { d with bytesDown := some bounds }
  | .bytesUp bounds => { d with bytesUp := some bounds }
  | .threads scope => { d with threads := some scope }
  | .kind kind => d.withKind kind
  | .matching pattern => d.withPattern pattern
  | .address address => d.withAddress address
  | .endpoint filter => { d with endpoint := filter }

def ofClauses (subject : Subject) (clauses : List Clause) : Draft :=
  clauses.foldl add (start subject)

def bounds (calls rows bytesDown bytesUp : Option Bounds) : List (Measure × Bounds) :=
  (calls.map (Measure.calls, ·)).toList ++ (rows.map (Measure.rows, ·)).toList ++
    (bytesDown.map (Measure.bytesDown, ·)).toList ++ (bytesUp.map (Measure.bytesUp, ·)).toList

def build (d : Draft) : Except Misconfiguration Expectation :=
  match d.conflict with
  | some reason => .error (.conflicting reason)
  | none => do
      let calls ← d.calls.combine
      let rows ← d.rows.combine
      match bounds calls rows d.bytesDown d.bytesUp with
      | [] => .error .missingBounds
      | given => .ok ⟨d.threads, d.endpoint, given⟩

end Draft

def Expectation.build (subject : Subject) (clauses : List Clause) :
    Except Misconfiguration Expectation :=
  (Draft.ofClauses subject clauses).build

end CallWatch

import CallWatch.Span

namespace CallWatch

-- What is counted for one key: calls, the time they took, rows affected, and
-- bytes received (down) and sent (up).
@[ext]
structure Tally where
  calls : Count
  nanos : Count
  rows : Count
  bytesDown : Count
  bytesUp : Count
deriving DecidableEq

namespace Tally

instance : Zero Tally :=
  ⟨⟨0, 0, 0, 0, 0⟩⟩

instance : Inhabited Tally :=
  ⟨0⟩

instance : Add Tally :=
  ⟨fun a b => ⟨a.calls + b.calls, a.nanos + b.nanos, a.rows + b.rows,
    a.bytesDown + b.bytesDown, a.bytesUp + b.bytesUp⟩⟩

instance : Sub Tally :=
  ⟨fun a b => ⟨a.calls - b.calls, a.nanos - b.nanos, a.rows - b.rows,
    a.bytesDown - b.bytesDown, a.bytesUp - b.bytesUp⟩⟩

def statement (elapsed : Span) (rows : Count) : Tally :=
  { (0 : Tally) with calls := 1, nanos := elapsed.toCount, rows }

def received (bytes : Count) : Tally :=
  { (0 : Tally) with calls := 1, bytesDown := bytes }

def sent (bytes : Count) : Tally :=
  { (0 : Tally) with calls := 1, bytesUp := bytes }

def withElapsed (t : Tally) (elapsed : Span) : Tally :=
  { t with nanos := elapsed.toCount }

def elapsed (t : Tally) : Span :=
  Span.ofNanos t.nanos

def isZero (t : Tally) : Bool :=
  t = 0

def sum (ts : List Tally) : Tally :=
  ts.foldl (· + ·) 0

-- What a counter shows after each of several amounts added to it.
def running (t : Tally) : List Tally → List Tally
  | [] => []
  | amount :: rest => (t + amount) :: running (t + amount) rest

end Tally

end CallWatch

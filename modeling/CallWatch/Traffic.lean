import CallWatch.Key
import CallWatch.Packet

namespace CallWatch

-- The packets captured for one key, in the order of their capture.
structure Traffic.Stream where
  key : Key
  packets : List Packet

-- Raw payloads by key. Streams stand in the order of their first capture.
structure Traffic where
  streams : List Traffic.Stream

-- How many packets each key had at some moment.
abbrev Marks :=
  List (Key × Nat)

def Marks.countOf (marks : Marks) (key : Key) : Nat :=
  match marks.find? (·.1 == key) with
  | some (_, count) => count
  | none => 0

namespace Traffic

def empty : Traffic :=
  ⟨[]⟩

def isEmpty (t : Traffic) : Bool :=
  t.streams.isEmpty

def append (key : Key) (packets : List Packet) : List Stream → List Stream
  | [] => [⟨key, packets⟩]
  | s :: rest =>
      if s.key == key then { s with packets := s.packets ++ packets } :: rest
      else s :: append key packets rest

-- Transfers of no bytes leave no trace.
def capture (t : Traffic) (key : Key) (direction : Direction) (time : Int64)
    (bytes : List UInt8) : Traffic :=
  if bytes.isEmpty then t
  else ⟨append key [.single direction time bytes] t.streams⟩

def marks (t : Traffic) : Marks :=
  t.streams.map fun s => (s.key, s.packets.length)

-- What each key let through received after the marks. Keys with nothing new are
-- left out.
def fresh (t : Traffic) (keep : Key → Bool) (since : Marks) : List Stream :=
  ((t.streams.filter fun s => keep s.key).map fun s =>
    { s with packets := s.packets.drop (since.countOf s.key) }).filter
      fun s => !s.packets.isEmpty

def group (detail : Detail) (streams : List Stream) : List Stream :=
  streams.foldl (fun grouped s => append (s.key.coarsen detail) s.packets grouped) []

def packets (t : Traffic) (keep : Key → Bool) (detail : Detail) (since : Marks)
    (threshold : Span) : List Stream :=
  (group detail (t.fresh keep since)).map fun s =>
    { s with packets := Packet.coalesce s.packets threshold }

end Traffic

end CallWatch

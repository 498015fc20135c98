import CallWatch.Span

namespace CallWatch

inductive Direction where
  | sent
  | received
deriving DecidableEq

namespace Direction

def name : Direction → String
  | .sent => "sent"
  | .received => "received"

def label : Direction → String
  | .sent => "Sent"
  | .received => "Received"

end Direction

-- Bytes that moved one way over a stretch of time. Times are milliseconds on a
-- 64-bit clock: the first transfer and the last one joined to it.
structure Packet where
  direction : Direction
  first : Int64
  last : Int64
  bytes : List UInt8
deriving DecidableEq

namespace Packet

def single (direction : Direction) (time : Int64) (bytes : List UInt8) : Packet :=
  ⟨direction, time, time, bytes⟩

def clockMin : Int :=
  -9223372036854775808

def clockMax : Int :=
  9223372036854775807

-- A difference of two times, held within the clock's own range.
def gap (earlier later : Int64) : Int :=
  max clockMin (min (later.toInt - earlier.toInt) clockMax)

-- A threshold in whole milliseconds, never beyond the clock's range.
def reach (threshold : Span) : Int :=
  min (threshold.millis : Int) clockMax

-- Whether `next` goes the same way and follows within the threshold.
def joins (p next : Packet) (threshold : Span) : Bool :=
  p.direction = next.direction && gap p.last next.first ≤ reach threshold

def append (p next : Packet) : Packet :=
  { p with
    bytes := p.bytes ++ next.bytes
    last := if p.last ≤ next.last then next.last else p.last }

-- The packet that two transfers make, if they may be shown as one.
def join? (p next : Packet) (threshold : Span) : Option Packet :=
  if p.joins next threshold then some (p.append next) else none

-- Transfers join the packet that is pending for as long as they may.
def absorb (threshold : Span) (pending : Packet) : List Packet → List Packet
  | [] => [pending]
  | next :: rest =>
      match pending.join? next threshold with
      | some joined => absorb threshold joined rest
      | none => pending :: absorb threshold next rest

-- Packets in the order of their times, with neighbours joined where they may be.
def coalesce (packets : List Packet) (threshold : Span) : List Packet :=
  match packets.mergeSort fun a b => a.first ≤ b.first with
  | [] => []
  | first :: rest => absorb threshold first rest

end Packet

end CallWatch

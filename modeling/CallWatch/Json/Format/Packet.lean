import CallWatch.Json.Format.Names

namespace CallWatch.Json.Format

def readTime : Reader Int64 := do
  pure (Int64.ofInt (← Reader.integer CallWatch.Packet.clockMin CallWatch.Packet.clockMax))

def writeTime (t : Int64) : List Char :=
  Writer.integer t.toInt

def readByte : Reader UInt8 := do
  pure (UInt8.ofNat (← Reader.natural 255))

def writeByte (b : UInt8) : List Char :=
  Writer.natural b.toNat

structure PacketDraft where
  direction : Option Direction
  first : Option Int64
  last : Option Int64
  bytes : Option (List UInt8)

def PacketDraft.finish (d : PacketDraft) : Option Packet := do
  pure ⟨← d.direction, ← d.first, ← d.last, ← d.bytes⟩

def packetForm : Form PacketDraft Packet where
  blank := ⟨none, none, none, none⟩
  fields :=
    [.of "direction" (·.direction) (fun d x => { d with direction := some x }) direction.read,
      .of "timestamp" (·.first) (fun d t => { d with first := some t }) readTime,
      .of "last_timestamp" (·.last) (fun d t => { d with last := some t }) readTime,
      .of "bytes" (·.bytes) (fun d bs => { d with bytes := some bs }) (Reader.list readByte)]
  isClosed := false
  finish := PacketDraft.finish

def packet : Format Packet where
  write p := Writer.object
    [("direction", direction.write p.direction), ("timestamp", writeTime p.first),
      ("last_timestamp", writeTime p.last), ("bytes", Writer.array (p.bytes.map writeByte))]
  read := packetForm.read

end CallWatch.Json.Format

import CallWatch.Config.Basic
import CallWatch.Event
import CallWatch.Fault.Registry
import CallWatch.Ledger
import CallWatch.Traffic

namespace CallWatch

-- Where calls come in: one ledger, one capture of traffic, one fault registry.
structure Tap where
  config : Config
  ledger : Ledger
  traffic : Traffic
  registry : Fault.Registry

namespace Tap

-- The configuration sets the flags of the registry.
def create (config : Config) (registry : Fault.Registry) : Tap :=
  ⟨config, .empty, .empty,
    (registry.setThreadLocal config.threadLocalFaults).setPersistent config.persistFaults⟩

-- The origin of a call from a thread, with the place of the call if places are kept.
def origin (t : Tap) (thread : Thread) (here : CallSite) : Origin :=
  ⟨some thread, if t.config.captureSite then some here else none⟩

def statementExecuted (s : Statement) (rows : Count) : Event :=
  ⟨.trace, "statement executed", [("kind", s.kind.name), ("rows", Text.showNat rows.toNat)]⟩

def recordStatement (t : Tap) (sql : String) (origin : Origin) (elapsed : Span) (rows : Count) :
    Tap × List Event :=
  let s := Statement.ofText sql
  ({ t with ledger := t.ledger.record ⟨.statement s, origin⟩ (.statement elapsed rows) },
    [statementExecuted s rows])

def socketTransfer (s : Socket) (direction : Direction) (size : Nat) : Event :=
  ⟨.trace, "socket transfer",
    [("endpoint", s.display), ("direction", direction.label), ("len", Text.showNat size)]⟩

def transferTally (direction : Direction) (size : Nat) : Tally :=
  match direction with
  | .sent => .sent (.clamp size)
  | .received => .received (.clamp size)

def recordTransfer (t : Tap) (s : Socket) (origin : Origin) (direction : Direction)
    (time : Int64) (bytes : List UInt8) : Tap × List Event :=
  let key : Key := ⟨.socket s, origin⟩
  ({ t with
    ledger := t.ledger.record key (transferTally direction bytes.length)
    traffic := if t.config.captureTraffic then t.traffic.capture key direction time bytes
      else t.traffic },
    [socketTransfer s direction bytes.length])

def ledgerReset : Event :=
  ⟨.debug, "call store reset", []⟩

-- Forgets every call and payload. Fault rules stay.
def reset (t : Tap) : Tap × List Event :=
  ({ t with ledger := t.ledger.clear, traffic := .empty }, [ledgerReset])

end Tap

end CallWatch

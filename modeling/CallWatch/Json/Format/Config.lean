import CallWatch.Config.Basic
import CallWatch.Json.Format.Names

namespace CallWatch.Json.Format

structure SpanDraft where
  secs : Option Nat
  nanos : Option Nat

def SpanDraft.finish (d : SpanDraft) : Option Span := do
  Span.ofParts? (← d.secs) (← d.nanos)

-- A span has two members and no others.
def spanForm : Form SpanDraft Span where
  blank := ⟨none, none⟩
  fields :=
    [.of "secs" (·.secs) (fun d n => { d with secs := some n }) (Reader.natural Count.limit),
      .of "nanos" (·.nanos) (fun d n => { d with nanos := some n }) (Reader.natural 4294967295)]
  isClosed := true
  finish := SpanDraft.finish

def span : Format Span where
  write s := Writer.object
    [("secs", Writer.natural s.secs), ("nanos", Writer.natural s.subsecNanos)]
  read := spanForm.read

-- Settings that are missing are those of the standard configuration.
def configForm : Form Config.Overrides Config where
  blank := ⟨none, none, none, none, none, none⟩
  fields :=
    [.of "capture_call_site" (·.captureSite) (fun d b => { d with captureSite := some b })
        Reader.bool,
      .of "capture_traffic" (·.captureTraffic) (fun d b => { d with captureTraffic := some b })
        Reader.bool,
      .of "packet_merge_threshold" (·.mergeWithin) (fun d s => { d with mergeWithin := some s })
        span.read,
      .of "default_threads" (·.threads) (fun d t => { d with threads := some t }) threads.read,
      .of "thread_local_faults" (·.threadLocalFaults)
        (fun d b => { d with threadLocalFaults := some b }) Reader.bool,
      .of "persist_registry" (·.persistFaults) (fun d b => { d with persistFaults := some b })
        Reader.bool]
  isClosed := false
  finish d := some (Config.standard.override d)

def config : Format Config where
  write c := Writer.object
    [("capture_call_site", Writer.bool c.captureSite),
      ("capture_traffic", Writer.bool c.captureTraffic),
      ("packet_merge_threshold", span.write c.mergeWithin),
      ("default_threads", threads.write c.threads),
      ("thread_local_faults", Writer.bool c.threadLocalFaults),
      ("persist_registry", Writer.bool c.persistFaults)]
  read := configForm.read

end CallWatch.Json.Format

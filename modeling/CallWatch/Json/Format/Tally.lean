import CallWatch.Json.Format.Basic
import CallWatch.Tally

namespace CallWatch.Json.Format

def readCount : Reader Count := do
  match Count.ofNat? (← Reader.natural Count.limit) with
  | some n => pure n
  | none => Reader.unsuitable

def writeCount (n : Count) : List Char :=
  Writer.natural n.toNat

structure TallyDraft where
  calls : Option Count
  nanos : Option Count
  rows : Option Count
  bytesDown : Option Count
  bytesUp : Option Count

def TallyDraft.finish (d : TallyDraft) : Option Tally := do
  pure ⟨← d.calls, ← d.nanos, ← d.rows, ← d.bytesDown, ← d.bytesUp⟩

def tallyForm : Form TallyDraft Tally where
  blank := ⟨none, none, none, none, none⟩
  fields :=
    [.of "invocations" (·.calls) (fun d n => { d with calls := some n }) readCount,
      .of "elapsed_nanos" (·.nanos) (fun d n => { d with nanos := some n }) readCount,
      .of "rows" (·.rows) (fun d n => { d with rows := some n }) readCount,
      .of "bytes_down" (·.bytesDown) (fun d n => { d with bytesDown := some n }) readCount,
      .of "bytes_up" (·.bytesUp) (fun d n => { d with bytesUp := some n }) readCount]
  isClosed := false
  finish := TallyDraft.finish

def tally : Format Tally where
  write t := Writer.object
    [("invocations", writeCount t.calls), ("elapsed_nanos", writeCount t.nanos),
      ("rows", writeCount t.rows), ("bytes_down", writeCount t.bytesDown),
      ("bytes_up", writeCount t.bytesUp)]
  read := tallyForm.read

end CallWatch.Json.Format

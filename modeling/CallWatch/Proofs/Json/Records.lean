import CallWatch.Json.Format.Config
import CallWatch.Json.Format.Packet
import CallWatch.Json.Format.Tally
import CallWatch.Proofs.Json.Documents

namespace CallWatch.Json.Format

theorem reads_kind (k : Statement.Kind) : Reads kind.read (kind.write k) k :=
  Reader.reads_name (by cases k <;> decide)

theorem reads_threads (t : ThreadScope) : Reads threads.read (threads.write t) t :=
  Reader.reads_name (by cases t <;> decide)

theorem reads_direction (d : Direction) : Reads direction.read (direction.write d) d :=
  Reader.reads_name (by cases d <;> decide)

theorem reads_count (n : Count) : Reads readCount (writeCount n) n :=
  (Reader.reads_natural n.le_limit n.le_limit).bind (by simp)

theorem reads_tally (t : Tally) : Reads tally.read (tally.write t) t := by
  have hd : tallyForm.Distinct := by decide
  have hfills : tallyForm.Fills tallyForm.blank
      [("invocations", writeCount t.calls), ("elapsed_nanos", writeCount t.nanos),
        ("rows", writeCount t.rows), ("bytes_down", writeCount t.bytesDown),
        ("bytes_up", writeCount t.bytesUp)]
      ⟨some t.calls, some t.nanos, some t.rows, some t.bytesDown, some t.bytesUp⟩ := by
    apply Form.Fills.field hd (.head _) rfl (reads_count t.calls)
    apply Form.Fills.field hd (.tail _ (.head _)) rfl (reads_count t.nanos)
    apply Form.Fills.field hd (.tail _ (.tail _ (.head _))) rfl (reads_count t.rows)
    apply Form.Fills.field hd (.tail _ (.tail _ (.tail _ (.head _)))) rfl (reads_count t.bytesDown)
    apply Form.Fills.field hd (.tail _ (.tail _ (.tail _ (.tail _ (.head _))))) rfl
      (reads_count t.bytesUp)
    exact .nil _
  exact Form.reads_object hfills rfl

theorem reads_time (t : Int64) : Reads readTime (writeTime t) t := by
  have hlower : Packet.clockMin ≤ t.toInt := t.le_toInt
  have hupper : t.toInt ≤ Packet.clockMax := by
    have hlt := t.toInt_lt
    simp only [Packet.clockMax]
    omega
  have hlimit : Packet.clockMax ≤ Count.limit := by decide
  exact (Reader.reads_integer hlower hupper hlower (Int.le_trans hupper hlimit)).bind (by simp)

theorem reads_byte (b : UInt8) : Reads readByte (writeByte b) b := by
  have hbyte : b.toNat ≤ 255 := by
    have hlt := b.toNat_lt
    omega
  have hlimit : 255 ≤ Count.limit := by decide
  exact (Reader.reads_natural hbyte (Nat.le_trans hbyte hlimit)).bind (by simp)

theorem reads_packet (p : Packet) : Reads packet.read (packet.write p) p := by
  have hd : packetForm.Distinct := by decide
  have hbytes := Reader.reads_list fun b (_ : b ∈ p.bytes) => reads_byte b
  have hfills : packetForm.Fills packetForm.blank
      [("direction", direction.write p.direction), ("timestamp", writeTime p.first),
        ("last_timestamp", writeTime p.last), ("bytes", Writer.array (p.bytes.map writeByte))]
      ⟨some p.direction, some p.first, some p.last, some p.bytes⟩ := by
    apply Form.Fills.field hd (.head _) rfl (reads_direction p.direction)
    apply Form.Fills.field hd (.tail _ (.head _)) rfl (reads_time p.first)
    apply Form.Fills.field hd (.tail _ (.tail _ (.head _))) rfl (reads_time p.last)
    apply Form.Fills.field hd (.tail _ (.tail _ (.tail _ (.head _)))) rfl hbytes
    exact .nil _
  exact Form.reads_object hfills rfl

-- Step by step, since evaluation would go on into the bound on a span.
theorem SpanDraft.finish_some (secs nanos : Nat) :
    SpanDraft.finish ⟨some secs, some nanos⟩ = Span.ofParts? secs nanos := by
  rw [SpanDraft.finish, Option.bind_eq_bind, Option.bind_some, Option.bind_some]

-- The part of a second stays below a whole one, so that nothing carries over.
theorem reads_span (s : Span) : Reads span.read (span.write s) s := by
  have hd : spanForm.Distinct := by decide
  have hsecs : s.secs ≤ Count.limit := s.secs_le
  have hnanos : s.subsecNanos ≤ 4294967295 := by
    have hlt : s.subsecNanos < Span.perSecond := Nat.mod_lt _ (by decide)
    simp only [Span.perSecond] at hlt
    omega
  have hlimit : 4294967295 ≤ Count.limit := by decide
  have hfills : spanForm.Fills spanForm.blank
      [("secs", Writer.natural s.secs), ("nanos", Writer.natural s.subsecNanos)]
      ⟨some s.secs, some s.subsecNanos⟩ := by
    apply Form.Fills.field hd (.head _) rfl (Reader.reads_natural hsecs hsecs)
    apply Form.Fills.field hd (.tail _ (.head _)) rfl
      (Reader.reads_natural hnanos (Nat.le_trans hnanos hlimit))
    exact .nil _
  have hfinish : spanForm.finish ⟨some s.secs, some s.subsecNanos⟩ = some s :=
    (SpanDraft.finish_some s.secs s.subsecNanos).trans s.ofParts?_secs
  exact Form.reads_object hfills hfinish

theorem reads_config (c : Config) : Reads config.read (config.write c) c := by
  have hd : configForm.Distinct := by decide
  have hfills : configForm.Fills configForm.blank
      [("capture_call_site", Writer.bool c.captureSite),
        ("capture_traffic", Writer.bool c.captureTraffic),
        ("packet_merge_threshold", span.write c.mergeWithin),
        ("default_threads", threads.write c.threads),
        ("thread_local_faults", Writer.bool c.threadLocalFaults),
        ("persist_registry", Writer.bool c.persistFaults)]
      ⟨some c.captureSite, some c.captureTraffic, some c.mergeWithin, some c.threads,
        some c.threadLocalFaults, some c.persistFaults⟩ := by
    apply Form.Fills.field hd (.head _) rfl (Reader.reads_bool c.captureSite)
    apply Form.Fills.field hd (.tail _ (.head _)) rfl (Reader.reads_bool c.captureTraffic)
    apply Form.Fills.field hd (.tail _ (.tail _ (.head _))) rfl (reads_span c.mergeWithin)
    apply Form.Fills.field hd (.tail _ (.tail _ (.tail _ (.head _)))) rfl (reads_threads c.threads)
    apply Form.Fills.field hd (.tail _ (.tail _ (.tail _ (.tail _ (.head _))))) rfl
      (Reader.reads_bool c.threadLocalFaults)
    apply Form.Fills.field hd (.tail _ (.tail _ (.tail _ (.tail _ (.tail _ (.head _)))))) rfl
      (Reader.reads_bool c.persistFaults)
    exact .nil _
  exact Form.reads_object hfills rfl

-- To read undoes to write.
def Lossless {α : Type} (f : Format α) : Prop :=
  ∀ value, f.ofText (f.toText value) = .ok value

-- Whatever has a written form is read back from it as it was.
theorem lossless_formats :
    kind.Lossless ∧ threads.Lossless ∧ direction.Lossless ∧ status.Lossless ∧ tally.Lossless ∧
      packet.Lossless ∧ config.Lossless ∧ socketEntry.Lossless ∧ sourceEntry.Lossless ∧
        document.Lossless :=
  ⟨fun k => ofText_toText (reads_kind k),
    fun t => ofText_toText (reads_threads t),
    fun d => ofText_toText (reads_direction d),
    fun s => ofText_toText (reads_status s),
    fun t => ofText_toText (reads_tally t),
    fun p => ofText_toText (reads_packet p),
    fun c => ofText_toText (reads_config c),
    fun e => ofText_toText (reads_socketEntry 0 e),
    fun e => ofText_toText (reads_sourceEntry e),
    fun d => ofText_toText (reads_document d)⟩

end CallWatch.Json.Format

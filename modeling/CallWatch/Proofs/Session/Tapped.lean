import CallWatch.Proofs.Packet.Volume
import CallWatch.Proofs.Session.Beginnings
import CallWatch.Proofs.Tally.Counters

namespace CallWatch

def Direction.counter : Direction → Tally.Counter
  | .sent => .bytesUp
  | .received => .bytesDown

@[simp]
theorem Tap.read_transferTally (direction other : Direction) (size : Nat) :
    (transferTally direction size).read other.counter =
      if direction = other then min size Count.limit else 0 := by
  cases direction <;> cases other <;> rfl

@[simp]
theorem Tally.read_statement (elapsed : Span) (rows : Count) (direction : Direction) :
    (Tally.statement elapsed rows).read direction.counter = 0 := by
  cases direction <;> rfl

namespace Session

-- Recordings that do not come in through the tap, but go into the ledger or into the
-- traffic alone.
def Recording.isDirect : Recording → Bool
  | .record _ _ | .capture _ _ _ _ => true
  | _ => false

-- Every session on a tap that captures traffic, in which all calls came in through the
-- tap. What else was done is up to the session.
inductive Tapped : Session → List Deed → Prop where
  | start (config : Config) (hcapture : config.captureTraffic)
      (side : Option ((Key.Identity → Nat) × Nat)) (keeper : Option (Nat → Option String)) :
      Tapped (.start config (side.map fun (placement, shards) => .withPlacement placement shards)
        keeper) []
  | act {s : Session} {history : List Deed} (h : Tapped s history) (action : Action)
      (htap : ∀ r, action = .recording r → r.isDirect = false) :
      Tapped (s.perform action).1 (history ++ s.deeds action)
  | enter {s : Session} {history : List Deed} (h : Tapped s history) (number : Nat) :
      Tapped (s.guarding number) history
  | leave {s : Session} {history : List Deed} (h : Tapped s history) (outer : List Nat) :
      Tapped (s.unguarding outer) history

theorem Tapped.reached {s : Session} {history : List Deed} (h : Tapped s history) :
    Reached s history := by
  induction h with
  | start config hcapture side keeper => exact .start config side keeper
  | act h action htap ih => exact ih.act action
  | enter h number ih => exact ih.enter number
  | leave h outer ih => exact ih.leave outer

theorem Tapped.captureTraffic {s : Session} {history : List Deed} (h : Tapped s history) :
    s.tap.config.captureTraffic := by
  induction h with
  | start config hcapture side keeper => exact hcapture
  | act h action htap ih =>
      rw [config_perform]
      exact ih
  | enter h number ih => exact ih
  | leave h outer ih => exact ih

-- Amounts and captures that the same calls left: each transfer counts its bytes and
-- leaves them as a packet, if there are any.
inductive InStep : List (Key × Tally) → List (Key × Packet) → Prop where
  | start : InStep [] []
  | statement {amounts : List (Key × Tally)} {captured : List (Key × Packet)}
      (h : InStep amounts captured) (key : Key) (elapsed : Span) (rows : Count) :
      InStep (amounts ++ [(key, .statement elapsed rows)]) captured
  | transfer {amounts : List (Key × Tally)} {captured : List (Key × Packet)}
      (h : InStep amounts captured) (key : Key) (direction : Direction) (time : Int64)
      (bytes : List UInt8) :
      InStep (amounts ++ [(key, Tap.transferTally direction bytes.length)])
        (captured ++ captures (captureDeeds key direction time bytes))

theorem volume_captureDeeds {keep : Key → Bool} (key : Key) (direction other : Direction)
    (time : Int64) (bytes : List UInt8) :
    Packet.volume other (((captures (captureDeeds key direction time bytes)).filter
        (keep ·.1)).map (·.2)) =
      if keep key ∧ direction = other then bytes.length else 0 := by
  cases bytes with
  | nil =>
      have hnone : captures (captureDeeds key direction time []) = [] := rfl
      simp [hnone]
  | cons byte rest =>
      have hone : captures (captureDeeds key direction time (byte :: rest)) =
          [(key, .single direction time (byte :: rest))] := rfl
      rw [hone]
      by_cases hkey : keep key <;> simp [hkey, Packet.single]

-- As long as no transfer alone goes beyond a counter, what was captured for some keys is
-- what was counted for them.
theorem InStep.volume_eq {amounts : List (Key × Tally)} {captured : List (Key × Packet)}
    (h : InStep amounts captured) (keep : Key → Bool) {direction : Direction}
    (hlimit : ∀ e ∈ amounts, e.2.read direction.counter < Count.limit) :
    Packet.volume direction ((captured.filter (keep ·.1)).map (·.2)) =
      Tally.readSum direction.counter ((amounts.filter (keep ·.1)).map (·.2)) := by
  induction h with
  | start => rfl
  | statement h key elapsed rows ih =>
      obtain ⟨hearlier, -⟩ := List.forall_mem_append.mp hlimit
      rw [ih hearlier]
      by_cases hkey : keep key <;> simp [hkey]
  | transfer h key other time bytes ih =>
      obtain ⟨hearlier, hlast⟩ := List.forall_mem_append.mp hlimit
      have hsize := hlast _ (List.mem_singleton_self _)
      rw [Tap.read_transferTally] at hsize
      rw [List.filter_append, List.map_append, Packet.volume_append, ih hearlier,
        volume_captureDeeds]
      by_cases hkey : keep key
      · by_cases hsame : other = direction
        · rw [if_pos hsame] at hsize
          simp [hkey, hsame]
          omega
        · simp [hkey, hsame]
      · simp [hkey]

-- What happened since a window began, when something more is done: either it begins just
-- now, or the deeds come on top.
theorem since_append (number : Nat) {history later : List Deed}
    (h : ∀ d ∈ later, d.begins number = false) :
    since number (history ++ later) = since number history ++ later := by
  apply @List.append_cancel_left _ (before number history)
  have hall := before_append_since number (history ++ later)
  rw [before_append number h] at hall
  rw [hall, ← List.append_assoc, before_append_since]

theorem since_concat (number : Nat) {history : List Deed} {d : Deed} (h : d.begins number) :
    since number (history ++ [d]) = [] :=
  List.rtakeWhile_concat_neg _ _ _ (by rw [h]; exact Bool.false_ne_true)

-- A tapped call adds to both sides at once.
theorem InStep.recording {s : Session} (hcapture : s.tap.config.captureTraffic) {r : Recording}
    (hr : r.isDirect = false) {ds : List Deed} (h : InStep (recordings .tap ds) (captures ds))
    (hclear : .changed .tap .clear ∉ s.recordingDeeds r) (hforgot : .forgot ∉ s.recordingDeeds r) :
    InStep (recordings .tap (ds ++ s.recordingDeeds r)) (captures (ds ++ s.recordingDeeds r)) := by
  rw [recordings_append, if_neg hclear, captures_append, if_neg hforgot]
  cases r with
  | statement sql origin elapsed rows =>
      have hnone : captures (s.recordingDeeds (.statement sql origin elapsed rows)) = [] := rfl
      rw [hnone, List.append_nil]
      exact h.statement _ elapsed rows
  | transfer socket origin direction time bytes =>
      let key : Key := ⟨.socket socket, origin⟩
      let call : Deed := .changed .tap (.record key (Tap.transferTally direction bytes.length))
      have hdeeds : s.recordingDeeds (.transfer socket origin direction time bytes) =
          call :: captureDeeds key direction time bytes := by
        rw [recordingDeeds, if_pos hcapture]
      have hamount : recordings .tap (call :: captureDeeds key direction time bytes) =
          [(key, Tap.transferTally direction bytes.length)] := by
        rw [← List.singleton_append, recordings, changesOf_append, changesOf_captureDeeds]
        rfl
      have hpacket : captures (call :: captureDeeds key direction time bytes) =
          captures (captureDeeds key direction time bytes) := rfl
      rw [hdeeds, hamount, hpacket]
      exact h.transfer key direction time bytes
  | record key amount => cases hr
  | capture key direction time bytes => cases hr
  | resetTap => exact absurd (List.mem_cons_self) hclear
  | resetLedger =>
      have hnone : captures (s.recordingDeeds .resetLedger) = [] := rfl
      have hother : s.place .side ≠ .tap := by
        intro htap
        rw [recordingDeeds, htap] at hclear
        exact hclear (List.mem_singleton_self _)
      have hkept : recordings .tap (s.recordingDeeds .resetLedger) = [] := by
        simp [recordings, changesOf, recordingDeeds, Deed.changeOf?, hother, Ledger.Change.lasting]
      rw [hnone, hkept, List.append_nil, List.append_nil]
      exact h
  | resetTraffic => exact absurd (List.mem_singleton_self _) hforgot

-- Since a window began, counters and payloads went in step, unless they were taken back
-- meanwhile.
def InStepSince (number : Nat) (history : List Deed) : Prop :=
  .changed .tap .clear ∉ since number history → .forgot ∉ since number history →
    InStep (recordings .tap (since number history)) (captures (since number history))

-- The beginning of a window counts and captures nothing.
theorem InStepSince.beginning {number : Nat} {history : List Deed} (h : InStepSince number history)
    {d : Deed} (other : Nat) (hd : d.begins other) : InStepSince number (history ++ [d]) := by
  intro hclear hforgot
  by_cases hnumber : d.begins number
  · rw [since_concat number hnumber]
    exact .start
  · have hothers : ∀ e ∈ [d], e.begins number = false := by simpa using hnumber
    rw [since_append number hothers, List.mem_append, not_or] at hclear hforgot
    rw [since_append number hothers, recordings_concat_begins _ hd, captures_concat_begins hd]
    exact h hclear.1 hforgot.1

theorem Tapped.inStepSince {s : Session} {history : List Deed} (h : Tapped s history)
    (number : Nat) : InStepSince number history := by
  induction h with
  | start config hcapture side keeper => exact fun _ _ => .start
  | @act s history h action htap ih =>
      by_cases hrecording : ∃ r, action = .recording r
      · obtain ⟨r, rfl⟩ := hrecording
        intro hclear hforgot
        rw [deeds, since_append number (s.begins_recordingDeeds r number)] at hclear hforgot ⊢
        rw [List.mem_append, not_or] at hclear hforgot
        exact (ih hclear.1 hforgot.1).recording h.captureTraffic (htap r rfl) hclear.2 hforgot.2
      · rcases s.deeds_of_not_recording (not_exists.mp hrecording) with
          hdeeds | ⟨other, hdeeds⟩ | ⟨other, owner, source, hdeeds⟩
        · rw [hdeeds, List.append_nil]
          exact ih
        · rw [hdeeds]
          exact ih.beginning other (decide_eq_true rfl)
        · rw [hdeeds]
          exact ih.beginning other (decide_eq_true rfl)
  | enter h other ih => exact ih
  | leave h outer ih => exact ih

end Session

end CallWatch

import CallWatch.Proofs.Ledger.Replay
import CallWatch.Session.Run
import Mathlib.Data.List.DropRight

namespace CallWatch.Session

-- What the steps of a session did that a window may come to show, in the words of the
-- steps alone: amounts recorded, packets captured, and the beginnings of windows.
inductive Deed where
  | changed (source : Source) (change : Ledger.Change)
  | captured (key : Key) (packet : Packet)
  | forgot
  | opened (number owner : Nat) (source : Source)
  | restarted (number : Nat)
deriving DecidableEq

-- Which ledger a source stands for: without a ledger of its own a session has only
-- the tap's.
def place (s : Session) : Source → Source
  | .tap => .tap
  | .side => if s.side.isSome then .side else .tap

def captureDeeds (key : Key) (direction : Direction) (time : Int64) (bytes : List UInt8) :
    List Deed :=
  if bytes.isEmpty then [] else [.captured key (.single direction time bytes)]

def recordingDeeds (s : Session) : Recording → List Deed
  | .statement sql origin elapsed rows =>
      [.changed .tap (.record ⟨.statement (.ofText sql), origin⟩ (.statement elapsed rows))]
  | .transfer socket origin direction time bytes =>
      .changed .tap (.record ⟨.socket socket, origin⟩
          (Tap.transferTally direction bytes.length)) ::
        if s.tap.config.captureTraffic then
          captureDeeds ⟨.socket socket, origin⟩ direction time bytes
        else []
  | .record key amount => [.changed (s.place .side) (.record key amount)]
  | .capture key direction time bytes => captureDeeds key direction time bytes
  | .resetTap => [.changed .tap .clear, .forgot]
  | .resetLedger => [.changed (s.place .side) .clear]
  | .resetTraffic => [.forgot]

def openingDeeds (s : Session) (owner : Nat) : Option Wanted → List Deed
  | none => [.opened s.windows.length owner (s.place .side)]
  | some (.ok _) => [.opened s.windows.length owner .tap]
  | some (.error _) => []

-- A closed window begins nothing anew.
def restartDeeds (s : Session) (name : String) : List Deed :=
  match s.guardedWindow? name with
  | some (number, w) => if w.window.isClosed then [] else [.restarted number]
  | none => []

def deeds (s : Session) : Action → List Deed
  | .recording r => s.recordingDeeds r
  | .openWindow _ owner wanted => s.openingDeeds owner wanted
  | .watching name .restart => s.restartDeeds name
  | _ => []

-- Every session that steps can lead to, with what they did. A callback runs between
-- `enter` and `leave` of the guard around it.
inductive Reached : Session → List Deed → Prop where
  | start (config : Config) (side : Option ((Key.Identity → Nat) × Nat))
      (keeper : Option (Nat → Option String)) :
      Reached (.start config (side.map fun (placement, shards) => .withPlacement placement shards)
        keeper) []
  | act {s : Session} {history : List Deed} (h : Reached s history) (action : Action) :
      Reached (s.perform action).1 (history ++ s.deeds action)
  | enter {s : Session} {history : List Deed} (h : Reached s history) (number : Nat) :
      Reached (s.guarding number) history
  | leave {s : Session} {history : List Deed} (h : Reached s history) (outer : List Nat) :
      Reached (s.unguarding outer) history

namespace Deed

def changeOf? (source : Source) : Deed → Option Ledger.Change
  | changed other change => if other = source then some change else none
  | _ => none

-- A window begins where it is opened, and anew where it is restarted.
def begins (number : Nat) : Deed → Bool
  | opened n _ _ => n = number
  | restarted n => n = number
  | _ => false

def openingOf? (number : Nat) : Deed → Option (Nat × Source)
  | opened n owner source => if n = number then some (owner, source) else none
  | _ => none

def keepCapture (captures : List (Key × Packet)) : Deed → List (Key × Packet)
  | captured key packet => captures ++ [(key, packet)]
  | forgot => []
  | _ => captures

end Deed

variable (source : Source) (number : Nat)

def changesOf (history : List Deed) : List Ledger.Change :=
  history.filterMap (Deed.changeOf? source)

-- The amounts recorded into a ledger since it was last cleared.
def recordings (history : List Deed) : List (Key × Tally) :=
  Ledger.Change.lasting (changesOf source history)

-- The packets captured since they were last forgotten.
def captures (history : List Deed) : List (Key × Packet) :=
  history.foldl Deed.keepCapture []

-- By whom and on which ledger a window was opened.
def openings (history : List Deed) : List (Nat × Source) :=
  history.filterMap (Deed.openingOf? number)

-- What had been done when a window last began, and what has been done since.
def before (history : List Deed) : List Deed :=
  history.rdropWhile (!Deed.begins number ·)

def since (history : List Deed) : List Deed :=
  history.rtakeWhile (!Deed.begins number ·)

theorem before_append_since (history : List Deed) :
    before number history ++ since number history = history :=
  List.rdropWhile_append_rtakeWhile

theorem changesOf_append (a b : List Deed) :
    changesOf source (a ++ b) = changesOf source a ++ changesOf source b :=
  List.filterMap_append

theorem openings_append (a b : List Deed) :
    openings number (a ++ b) = openings number a ++ openings number b :=
  List.filterMap_append

theorem mem_changesOf {history : List Deed} {change : Ledger.Change} :
    change ∈ changesOf source history ↔ .changed source change ∈ history := by
  rw [changesOf, List.mem_filterMap]
  constructor
  · rintro ⟨d, hd, hchange⟩
    cases d with
    | changed other c =>
        rw [Deed.changeOf?] at hchange
        split at hchange
        · rename_i hsource
          rw [← hsource, ← Option.some.inj hchange]
          exact hd
        · cases hchange
    | _ => cases hchange
  · intro h
    exact ⟨_, h, if_pos rfl⟩

-- A clearing takes away all that was recorded before it, and nothing else does.
theorem recordings_append (a b : List Deed) :
    recordings source (a ++ b) =
      if .changed source .clear ∈ b then recordings source b
      else recordings source a ++ recordings source b := by
  rw [recordings, changesOf_append, Ledger.Change.lasting_append, recordings, recordings]
  simp only [mem_changesOf]

theorem captures_concat (history : List Deed) (d : Deed) :
    captures (history ++ [d]) = Deed.keepCapture (captures history) d := by
  simp [captures]

theorem captures_append (a b : List Deed) :
    captures (a ++ b) = if .forgot ∈ b then captures b else captures a ++ captures b := by
  induction b using List.reverseRecOn with
  | nil => simp [captures]
  | append_singleton b d ih =>
      rw [← List.append_assoc, captures_concat, ih, captures_concat]
      cases d with
      | captured key packet =>
          simp only [Deed.keepCapture, List.mem_append, List.mem_singleton, reduceCtorEq, or_false]
          split
          · rfl
          · rw [List.append_assoc]
      | _ => simp [Deed.keepCapture]

-- What was recorded up to now is what was recorded since a window began, after what was
-- recorded before that unless it has been cleared.
theorem recordings_eq (history : List Deed) :
    recordings source history =
        recordings source (before number history) ++ recordings source (since number history) ∨
      recordings source history = recordings source (since number history) := by
  have happend := recordings_append source (before number history) (since number history)
  rw [before_append_since] at happend
  split at happend
  · exact .inr happend
  · exact .inl happend

theorem captures_eq (history : List Deed) :
    captures history = captures (before number history) ++ captures (since number history) ∨
      captures history = captures (since number history) := by
  have happend := captures_append (before number history) (since number history)
  rw [before_append_since] at happend
  split at happend
  · exact .inr happend
  · exact .inl happend

-- To begin a window records and captures nothing.
theorem recordings_concat_begins {history : List Deed} {d : Deed} {number : Nat}
    (h : d.begins number) : recordings source (history ++ [d]) = recordings source history := by
  rw [recordings, changesOf_append]
  cases d with
  | opened | restarted =>
      rw [changesOf, changesOf, List.filterMap_cons_none rfl, List.filterMap_nil, List.append_nil,
        recordings, changesOf]
  | _ => cases h

theorem captures_concat_begins {history : List Deed} {d : Deed} {number : Nat}
    (h : d.begins number) : captures (history ++ [d]) = captures history := by
  rw [captures_concat]
  cases d with
  | opened | restarted => rfl
  | _ => cases h

-- Deeds that begin other windows, or none, come after the beginning of this one.
theorem before_append {history later : List Deed}
    (h : ∀ d ∈ later, d.begins number = false) :
    before number (history ++ later) = before number history := by
  induction later using List.reverseRecOn with
  | nil => rw [List.append_nil]
  | append_singleton later d ih =>
      have hd := h d (by simp)
      rw [← List.append_assoc, before, List.rdropWhile_concat_pos _ _ _ (by rw [hd]; rfl),
        ← before, ih fun e he => h e (List.mem_append_left _ he)]

theorem before_concat {history : List Deed} {d : Deed} (h : d.begins number) :
    before number (history ++ [d]) = history ++ [d] :=
  List.rdropWhile_concat_neg _ _ _ (by rw [h]; exact Bool.false_ne_true)

mutual

-- What a script runs through is reached, inside callbacks too.
theorem Reached.run {α : Type} {s : Session} {history : List Deed} (h : Reached s history)
    (step : Step α) : ∃ later, Reached (s.run step).1 (history ++ later) := by
  cases step with
  | act action =>
      rw [Session.run]
      exact ⟨s.deeds action, h.act action⟩
  | guarded guard name body ending =>
      rw [Session.run]
      split
      · exact ⟨[], by simpa using h⟩
      · rename_i number w _
        split
        · exact ⟨[], by simpa using h⟩
        · obtain ⟨later, hbody⟩ := (h.enter number).runAll body
          exact ⟨later, hbody.leave s.guarded⟩

theorem Reached.runAll {α : Type} {s : Session} {history : List Deed} (h : Reached s history)
    (steps : List (Step α)) : ∃ later, Reached (s.runAll steps).1 (history ++ later) := by
  cases steps with
  | nil => exact ⟨[], by simpa [Session.runAll] using h⟩
  | cons step rest =>
      obtain ⟨now, hstep⟩ := h.run step
      obtain ⟨later, hrest⟩ := hstep.runAll rest
      rw [Session.runAll]
      exact ⟨now ++ later, by simpa using hrest⟩

end

end CallWatch.Session

import CallWatch.Proofs.Session.History

namespace CallWatch.Session

-- Nothing that a window looks at differs between two sessions.
structure SameBooks (s t : Session) : Prop where
  config : t.tap.config = s.tap.config
  ledger : t.tap.ledger = s.tap.ledger
  side : t.side = s.side
  traffic : t.tap.traffic = s.tap.traffic

-- Nor do the windows themselves.
structure SameView (s t : Session) : Prop extends SameBooks s t where
  windows : t.windows = s.windows

theorem SameBooks.ledgerOf_eq {s t : Session} (h : s.SameBooks t) (source : Source) :
    t.ledgerOf source = s.ledgerOf source := by
  cases source with
  | tap => exact h.ledger
  | side => rw [ledgerOf, ledgerOf, h.side, h.ledger]

variable (s : Session)

theorem SameView.refl : s.SameView s :=
  ⟨⟨rfl, rfl, rfl, rfl⟩, rfl⟩

theorem sameView_setRegistry (registry : Fault.Registry) : s.SameView (s.setRegistry registry) :=
  ⟨⟨rfl, rfl, rfl, rfl⟩, rfl⟩

theorem sameView_changeTable (scope : Option String) (f : Fault.Table → Fault.Table)
    (g : Fault.Registry → Fault.Registry × Fault.Effects) :
    s.SameView (s.changeTable scope f g).1 := by
  rw [changeTable]
  split <;> exact s.sameView_setRegistry _

theorem sameView_performFaulting (f : Faulting) : s.SameView (s.performFaulting f).1 := by
  cases f with
  | newScope name => exact ⟨⟨rfl, rfl, rfl, rfl⟩, rfl⟩
  | dropScope name =>
      simp only [performFaulting, dropScope]
      split <;> exact ⟨⟨rfl, rfl, rfl, rfl⟩, rfl⟩
  | setSocket | setSource | clear => exact s.sameView_changeTable _ _ _
  | read text =>
      simp only [performFaulting]
      split
      · exact s.sameView_setRegistry _
      · exact SameView.refl s
  | _ => first | exact SameView.refl s | exact s.sameView_setRegistry _

theorem sameView_performReading (r : Reading) : s.SameView (s.performReading r).1 := by
  cases r with
  | summarize filter detail keepAs => cases keepAs <;> exact ⟨⟨rfl, rfl, rfl, rfl⟩, rfl⟩
  | mergeInto | mark => exact ⟨⟨rfl, rfl, rfl, rfl⟩, rfl⟩
  | _ => exact SameView.refl s

theorem sameView_dropWindow (name : String) : s.SameView (s.dropWindow name).1 := by
  rw [dropWindow]
  split <;> exact ⟨⟨rfl, rfl, rfl, rfl⟩, rfl⟩

theorem performWatching_eq (name : String) (a : Watching) :
    s.performWatching name a =
      match s.guardedWindow? name with
      | none => quiet s (.unknown name)
      | some (number, w) => quiet (s.setWindow number (s.watch w a).1) (s.watch w a).2 := by
  rw [performWatching, guardedWindow?]
  cases s.windowNames.get? name with
  | none => rfl
  | some number =>
      simp only [Option.bind_some]
      cases s.watched? number <;> rfl

variable {s} in
theorem reply_watching {name : String} {number : Nat} {w : Watched}
    (hw : s.guardedWindow? name = some (number, w)) (a : Watching) :
    (s.perform (.watching name a)).2.1 = (s.watch w a).2 := by
  rw [perform, performWatching_eq, hw]
  rfl

theorem sameBooks_performWatching (name : String) (a : Watching) :
    s.SameBooks (s.performWatching name a).1 := by
  rw [performWatching_eq]
  split <;> exact ⟨rfl, rfl, rfl, rfl⟩

theorem windows_performRecording (r : Recording) :
    (s.performRecording r).1.windows = s.windows := by
  cases r with
  | record | resetLedger =>
      simp only [performRecording, updateLedger]
      split <;> rfl
  | _ => rfl

theorem config_performRecording (r : Recording) :
    (s.performRecording r).1.tap.config = s.tap.config := by
  cases r with
  | record | resetLedger =>
      simp only [performRecording, updateLedger]
      split <;> rfl
  | _ => rfl

theorem isSome_side_performRecording (r : Recording) :
    (s.performRecording r).1.side.isSome = s.side.isSome := by
  cases r with
  | record | resetLedger =>
      simp only [performRecording, updateLedger]
      split
      · rename_i ledger hside
        rw [hside]
        rfl
      · rfl
  | _ => rfl

theorem changesOf_captureDeeds (source : Source) (key : Key) (direction : Direction)
    (time : Int64) (bytes : List UInt8) :
    changesOf source (captureDeeds key direction time bytes) = [] := by
  rw [captureDeeds]
  split <;> rfl

variable {s} in
theorem ledgerOf_of_tap_change {t : Session} {c : Ledger.Change} (hside : t.side = s.side)
    (hledger : t.tap.ledger = s.tap.ledger.change c) (source : Source) :
    t.ledgerOf source =
      (s.ledgerOf source).replay (changesOf (s.place source) [.changed .tap c]) := by
  cases source with
  | tap => exact hledger
  | side =>
      rw [ledgerOf, ledgerOf, place, hside]
      cases s.side with
      | none => exact hledger
      | some ledger => rfl

theorem ledgerOf_updateLedger (c : Ledger.Change) (source : Source) :
    (s.updateLedger (·.change c)).ledgerOf source =
      (s.ledgerOf source).replay (changesOf (s.place source) [.changed (s.place .side) c]) := by
  cases hside : s.side with
  | none =>
      have hplace : s.place .side = .tap := by rw [place, hside]; rfl
      rw [hplace, updateLedger, hside]
      exact ledgerOf_of_tap_change hside.symm rfl source
  | some ledger =>
      have hplace : s.place .side = .side := by rw [place, hside]; rfl
      rw [hplace, updateLedger, hside]
      cases source with
      | tap => rfl
      | side =>
          rw [hplace, ledgerOf, ledgerOf, hside]
          rfl

-- Whichever ledger a window looks at, a recording changes it as the history says.
theorem ledgerOf_performRecording (r : Recording) (source : Source) :
    (s.performRecording r).1.ledgerOf source =
      (s.ledgerOf source).replay (changesOf (s.place source) (s.recordingDeeds r)) := by
  cases r with
  | statement sql origin elapsed rows =>
      let key : Key := ⟨.statement (.ofText sql), origin⟩
      let amount : Tally := .statement elapsed rows
      refine ledgerOf_of_tap_change (c := .record key amount) ?_ ?_ source <;> rfl
  | transfer socket origin direction time bytes =>
      have hcapture : changesOf (s.place source) (if s.tap.config.captureTraffic then
          captureDeeds ⟨.socket socket, origin⟩ direction time bytes else []) = [] := by
        split
        · exact changesOf_captureDeeds _ _ _ _ _
        · rfl
      let amount := Tap.transferTally direction bytes.length
      rw [recordingDeeds, ← List.singleton_append, changesOf_append, hcapture, List.append_nil]
      refine ledgerOf_of_tap_change (c := .record ⟨.socket socket, origin⟩ amount) ?_ ?_ source <;>
        rfl
  | record key amount => exact s.ledgerOf_updateLedger (.record key amount) source
  | capture key direction time bytes =>
      rw [recordingDeeds, changesOf_captureDeeds]
      cases source <;> rfl
  | resetTap =>
      have hforgot : changesOf (s.place source) [.forgot] = [] := rfl
      rw [recordingDeeds, ← List.singleton_append, changesOf_append, hforgot, List.append_nil]
      refine ledgerOf_of_tap_change (c := .clear) ?_ ?_ source <;> rfl
  | resetLedger => exact s.ledgerOf_updateLedger .clear source
  | resetTraffic => cases source <;> rfl

-- What is captured, one packet at a time.
def Deed.onTraffic (t : Traffic) : Deed → Traffic
  | captured key packet => ⟨Traffic.append key [packet] t.streams⟩
  | forgot => .empty
  | _ => t

theorem capture_eq (t : Traffic) (key : Key) (direction : Direction) (time : Int64)
    (bytes : List UInt8) :
    t.capture key direction time bytes =
      (captureDeeds key direction time bytes).foldl Deed.onTraffic t := by
  rw [Traffic.capture, captureDeeds]
  split <;> rfl

theorem traffic_performRecording (r : Recording) :
    (s.performRecording r).1.tap.traffic =
      (s.recordingDeeds r).foldl Deed.onTraffic s.tap.traffic := by
  cases r with
  | transfer socket origin direction time bytes =>
      have hon : (s.performRecording (.transfer socket origin direction time bytes)).1.tap.traffic =
          if s.tap.config.captureTraffic then
            s.tap.traffic.capture ⟨.socket socket, origin⟩ direction time bytes
          else s.tap.traffic := rfl
      rw [hon, recordingDeeds, List.foldl_cons]
      split
      · exact capture_eq _ _ _ _ _
      · rfl
  | capture key direction time bytes => exact capture_eq _ _ _ _ _
  | record | resetLedger =>
      simp only [performRecording, updateLedger]
      split <;> rfl
  | _ => rfl

-- What a step is to the windows of a session: a recording, the opening of one, something
-- asked of one, or nothing at all.
inductive StepKind (s : Session) : Action → Prop where
  | recording (r : Recording) : StepKind s (.recording r)
  | opening {action : Action} (name : String) (owner : Nat) (source : Source)
      (expectations : List Expectation)
      (hperform : s.perform action = s.addWindow name owner source expectations)
      (hdeeds : s.deeds action = [.opened s.windows.length owner (s.place source)]) :
      StepKind s action
  | watching (name : String) (a : Watching) : StepKind s (.watching name a)
  | unseen {action : Action} (hview : s.SameView (s.perform action).1)
      (hdeeds : s.deeds action = []) : StepKind s action

theorem stepKind (action : Action) : s.StepKind action := by
  cases action with
  | inspecting i => exact .unseen (SameView.refl s) rfl
  | recording r => exact .recording r
  | reading r => exact .unseen (s.sameView_performReading r) rfl
  | openWindow name owner wanted =>
      cases wanted with
      | none => exact .opening name owner .side [] rfl rfl
      | some wanted =>
          cases wanted with
          | ok e => exact .opening name owner .tap [e] rfl rfl
          | error cause => exact .unseen (SameView.refl s) rfl
  | dropWindow name => exact .unseen (s.sameView_dropWindow name) rfl
  | watching name a => exact .watching name a
  | faulting f => exact .unseen (s.sameView_performFaulting f) rfl

-- Every step but a recording leaves the books alone.
theorem sameBooks_perform {action : Action} (h : ∀ r, action ≠ .recording r) :
    s.SameBooks (s.perform action).1 := by
  cases s.stepKind action with
  | recording r => exact absurd rfl (h r)
  | opening name owner source expectations hperform hdeeds =>
      rw [hperform]
      exact ⟨rfl, rfl, rfl, rfl⟩
  | watching name a => exact s.sameBooks_performWatching name a
  | unseen hview hdeeds => exact hview.toSameBooks

-- Such a step is at most the beginning of one window.
theorem deeds_of_not_recording {action : Action} (h : ∀ r, action ≠ .recording r) :
    s.deeds action = [] ∨ (∃ number, s.deeds action = [.restarted number]) ∨
      ∃ number owner source, s.deeds action = [.opened number owner source] := by
  cases s.stepKind action with
  | recording r => exact absurd rfl (h r)
  | opening name owner source expectations hperform hdeeds =>
      exact .inr (.inr ⟨_, _, _, hdeeds⟩)
  | watching name a =>
      cases a with
      | restart =>
          rw [deeds, restartDeeds]
          split
          · split
            · exact .inl rfl
            · exact .inr (.inl ⟨_, rfl⟩)
          · exact .inl rfl
      | _ => exact .inl rfl
  | unseen hview hdeeds => exact .inl hdeeds

theorem place_perform (action : Action) (source : Source) :
    (s.perform action).1.place source = s.place source := by
  have hside : (s.perform action).1.side.isSome = s.side.isSome := by
    by_cases h : ∃ r, action = .recording r
    · obtain ⟨r, rfl⟩ := h
      exact s.isSome_side_performRecording r
    · rw [(s.sameBooks_perform (not_exists.mp h)).side]
  cases source with
  | tap => rfl
  | side => rw [place, place, hside]

theorem ledgerOf_perform (action : Action) (source : Source) :
    (s.perform action).1.ledgerOf source =
      (s.ledgerOf source).replay (changesOf (s.place source) (s.deeds action)) := by
  by_cases h : ∃ r, action = .recording r
  · obtain ⟨r, rfl⟩ := h
    exact s.ledgerOf_performRecording r source
  · rw [(s.sameBooks_perform (not_exists.mp h)).ledgerOf_eq]
    rcases s.deeds_of_not_recording (not_exists.mp h) with hd | ⟨_, hd⟩ | ⟨_, _, _, hd⟩ <;>
      rw [hd] <;> rfl

theorem traffic_perform (action : Action) :
    (s.perform action).1.tap.traffic = (s.deeds action).foldl Deed.onTraffic s.tap.traffic := by
  by_cases h : ∃ r, action = .recording r
  · obtain ⟨r, rfl⟩ := h
    exact s.traffic_performRecording r
  · rw [(s.sameBooks_perform (not_exists.mp h)).traffic]
    rcases s.deeds_of_not_recording (not_exists.mp h) with hd | ⟨_, hd⟩ | ⟨_, _, _, hd⟩ <;>
      rw [hd] <;> rfl

-- No step changes the configuration.
theorem config_perform (action : Action) :
    (s.perform action).1.tap.config = s.tap.config := by
  by_cases h : ∃ r, action = .recording r
  · obtain ⟨r, rfl⟩ := h
    exact s.config_performRecording r
  · exact (s.sameBooks_perform (not_exists.mp h)).config

end CallWatch.Session

import CallWatch.Proofs.Session.Books

namespace CallWatch

-- A window as it goes on: what it shows is still measured from the same beginning.
structure Window.Continues (w later : Window) : Prop where
  owner : later.owner = w.owner
  mergeWithin : later.mergeWithin = w.mergeWithin
  calls : later.calls = w.calls
  marks : later.marks = w.marks

theorem Window.Continues.refl (w : Window) : w.Continues w :=
  ⟨rfl, rfl, rfl, rfl⟩

namespace Session

variable (s : Session)

-- What a step can do to a window: open it, let it begin anew, or leave its beginning
-- where it was.
inductive WindowStep (s : Session) (deeds : List Deed) (number : Nat) : Watched → Prop where
  | opened (owner : Nat) (source : Source) (expectations : List Expectation)
      (hnumber : number = s.windows.length)
      (hdeeds : deeds = [.opened number owner (s.place source)]) :
      WindowStep s deeds number
        ⟨{ Window.openOn s.tap.config owner (s.ledgerOf source) s.tap.traffic with
          expectations }, source⟩
  | restarted (w : Watched) (hw : s.watched? number = some w)
      (hdeeds : deeds = [.restarted number]) :
      WindowStep s deeds number
        ⟨w.window.restart (s.ledgerOf w.source) s.tap.traffic, w.source⟩
  | kept (w : Watched) (hw : s.watched? number = some w) (later : Window)
      (hlater : w.window.Continues later) (hdeeds : ∀ d ∈ deeds, d.begins number = false) :
      WindowStep s deeds number ⟨later, w.source⟩

theorem begins_recordingDeeds (r : Recording) (number : Nat) :
    ∀ d ∈ s.recordingDeeds r, d.begins number = false := by
  have hcapture (key : Key) (direction : Direction) (time : Int64) (bytes : List UInt8) :
      ∀ d ∈ captureDeeds key direction time bytes, d.begins number = false := by
    intro d hd
    rw [captureDeeds] at hd
    split at hd
    · cases hd
    · rw [List.mem_singleton.mp hd]
      rfl
  intro d hd
  cases r with
  | transfer socket origin direction time bytes =>
      rcases List.mem_cons.mp hd with rfl | hd
      · rfl
      · split at hd
        · exact hcapture _ _ _ _ d hd
        · cases hd
  | capture key direction time bytes => exact hcapture _ _ _ _ d hd
  | resetTap =>
      rcases List.mem_cons.mp hd with rfl | hd
      · rfl
      · rw [List.mem_singleton.mp hd]
        rfl
  | _ =>
      rw [List.mem_singleton.mp hd]
      rfl

-- Of what is asked of a window, only a restart moves its beginning.
theorem continues_watch (w : Watched) {a : Watching} (h : a ≠ .restart ∨ w.window.isClosed) :
    w.window.Continues (s.watch w a).1 := by
  cases a with
  | expect wanted =>
      cases wanted with
      | ok e =>
          simp only [watch]
          split <;> exact ⟨rfl, rfl, rfl, rfl⟩
      | error cause => exact .refl _
  | verifyOne wanted => cases wanted <;> exact .refl _
  | restart =>
      have hclosed := h.resolve_left fun hne => hne rfl
      obtain ⟨site, hsite⟩ := Option.isSome_iff_exists.mp hclosed
      simp only [watch, Window.whenOpen, hsite]
      exact .refl _
  | close site =>
      simp only [watch, Window.close]
      split <;> exact ⟨rfl, rfl, rfl, rfl⟩
  | _ => exact .refl _

theorem watch_restart (w : Watched) (h : w.window.closedAt = none) :
    (s.watch w .restart).1 = w.window.restart (s.ledgerOf w.source) s.tap.traffic := by
  simp only [watch, Window.whenOpen, h]

theorem guardedWindow?_eq_some_iff {name : String} {number : Nat} {w : Watched} :
    s.guardedWindow? name = some (number, w) ↔
      s.windowNames.get? name = some number ∧ s.watched? number = some w := by
  simp only [guardedWindow?, Option.bind_eq_some_iff, Option.map_eq_some_iff, Prod.mk.injEq]
  constructor
  · rintro ⟨_, hname, _, hw, rfl, rfl⟩
    exact ⟨hname, hw⟩
  · rintro ⟨hname, hw⟩
    exact ⟨number, hname, w, hw, rfl, rfl⟩

-- What is said about a window is about it as it stands, and only that one changes.
theorem watched?_setWindow {number : Nat} {w : Watched} (hw : s.watched? number = some w)
    (window : Window) (other : Nat) :
    (s.setWindow number window).watched? other =
      if number = other then some ⟨window, w.source⟩ else s.watched? other := by
  rw [watched?, setWindow, List.getElem?_modify]
  split
  · rename_i h
    subst h
    rw [Option.map_eq_map]
    rw [watched?] at hw
    rw [hw]
    rfl
  · simp [watched?]

theorem windowStep_of_watched? {number : Nat} {w : Watched} {ds : List Deed}
    (hw : s.watched? number = some w) (hd : ∀ d ∈ ds, d.begins number = false) :
    s.WindowStep ds number w :=
  .kept w hw w.window (.refl _) hd

theorem windows_addWindow (name : String) (owner : Nat) (source : Source)
    (expectations : List Expectation) :
    (s.addWindow name owner source expectations).1.windows = s.windows ++
      [⟨{ Window.openOn s.tap.config owner (s.ledgerOf source) s.tap.traffic with
        expectations }, source⟩] :=
  rfl

theorem windowStep_addWindow (name : String) (owner : Nat) (source : Source)
    (expectations : List Expectation) {number : Nat} {later : Watched}
    (h : (s.addWindow name owner source expectations).1.watched? number = some later) :
    s.WindowStep [.opened s.windows.length owner (s.place source)] number later := by
  rw [watched?, windows_addWindow] at h
  by_cases hlast : number = s.windows.length
  · subst hlast
    rw [List.getElem?_concat_length] at h
    rw [← Option.some.inj h]
    exact .opened owner source expectations rfl rfl
  · have hlt : number < s.windows.length := by
      have hbound := (List.getElem?_eq_some_iff.mp h).1
      rw [List.length_append, List.length_singleton] at hbound
      omega
    rw [List.getElem?_append_left hlt] at h
    apply s.windowStep_of_watched? h
    intro d hd
    rw [List.mem_singleton.mp hd]
    exact decide_eq_false (Ne.symm hlast)

theorem deeds_restart {name : String} {number : Nat} {w : Watched}
    (h : s.guardedWindow? name = some (number, w)) :
    s.deeds (.watching name .restart) =
      if w.window.isClosed then [] else [.restarted number] := by
  rw [deeds, restartDeeds, h]

theorem deeds_watching_of_kept {name : String} {number : Nat} {w : Watched} {a : Watching}
    (hw : s.guardedWindow? name = some (number, w)) (h : a ≠ .restart ∨ w.window.isClosed) :
    s.deeds (.watching name a) = [] := by
  cases a with
  | restart =>
      have hclosed := h.resolve_left fun hne => hne rfl
      rw [s.deeds_restart hw, if_pos hclosed]
  | _ => rfl

-- What is asked of one window is not the beginning of another.
theorem begins_deeds_watching (name : String) (a : Watching) {number : Nat}
    (h : ∀ w, s.guardedWindow? name ≠ some (number, w)) :
    ∀ d ∈ s.deeds (.watching name a), d.begins number = false := by
  intro d hd
  cases a with
  | restart =>
      rw [deeds, restartDeeds] at hd
      split at hd
      · rename_i asked w hw
        split at hd
        · cases hd
        · have hne : asked ≠ number := fun heq => h w (heq ▸ hw)
          rw [List.mem_singleton.mp hd]
          exact decide_eq_false hne
      · cases hd
  | _ => cases hd

theorem windowStep_performWatching (name : String) (a : Watching) {number : Nat}
    {later : Watched} (h : (s.performWatching name a).1.watched? number = some later) :
    s.WindowStep (s.deeds (.watching name a)) number later := by
  rw [performWatching_eq] at h
  cases hg : s.guardedWindow? name with
  | none =>
      have hother (w : Watched) : s.guardedWindow? name ≠ some (number, w) := by simp [hg]
      rw [hg] at h
      exact s.windowStep_of_watched? h (s.begins_deeds_watching name a hother)
  | some numbered =>
      obtain ⟨asked, w⟩ := numbered
      have hw := (s.guardedWindow?_eq_some_iff.mp hg).2
      rw [hg] at h
      replace h : (s.setWindow asked (s.watch w a).1).watched? number = some later := h
      rw [s.watched?_setWindow hw] at h
      by_cases hasked : asked = number
      · subst hasked
        rw [if_pos rfl] at h
        rw [← Option.some.inj h]
        by_cases hkept : a ≠ .restart ∨ w.window.isClosed
        · refine .kept w hw _ (s.continues_watch w hkept) ?_
          simp [s.deeds_watching_of_kept hg hkept]
        · obtain ⟨ha, hopen⟩ := not_or.mp hkept
          have hnone : w.window.closedAt = none := by
            simpa [Window.isClosed] using hopen
          rw [not_not.mp ha, s.watch_restart w hnone]
          exact .restarted w hw (by rw [s.deeds_restart hg, if_neg hopen])
      · have hother (w : Watched) : s.guardedWindow? name ≠ some (number, w) := by
          simp [hg, hasked]
        rw [if_neg hasked] at h
        exact s.windowStep_of_watched? h (s.begins_deeds_watching name a hother)

theorem windowStep_perform (action : Action) {number : Nat} {later : Watched}
    (h : (s.perform action).1.watched? number = some later) :
    s.WindowStep (s.deeds action) number later := by
  cases s.stepKind action with
  | recording r =>
      rw [watched?, perform, windows_performRecording] at h
      exact s.windowStep_of_watched? h (s.begins_recordingDeeds r number)
  | opening name owner source expectations hperform hdeeds =>
      rw [hperform] at h
      rw [hdeeds]
      exact s.windowStep_addWindow name owner source expectations h
  | watching name a => exact s.windowStep_performWatching name a h
  | unseen hview hdeeds =>
      rw [watched?, hview.windows] at h
      exact s.windowStep_of_watched? h (by simp [hdeeds])

variable {s} in
theorem openings_eq_nil {number : Nat} {ds : List Deed} (h : ∀ d ∈ ds, d.begins number = false) :
    openings number ds = [] := by
  rw [openings, List.filterMap_eq_nil_iff]
  intro d hd
  have hnot := h d hd
  cases d with
  | opened n owner source => exact if_neg (of_decide_eq_false hnot)
  | _ => rfl

theorem openings_watching (name : String) (a : Watching) (number : Nat) :
    openings number (s.deeds (.watching name a)) = [] := by
  cases a with
  | restart =>
      rw [deeds, restartDeeds]
      split
      · split <;> rfl
      · rfl
  | _ => rfl

-- A window that is not there after a step was not there before it, nor did the step
-- open it.
theorem openings_of_watched?_eq_none (action : Action) {number : Nat}
    (h : (s.perform action).1.watched? number = none) :
    s.watched? number = none ∧ openings number (s.deeds action) = [] := by
  cases s.stepKind action with
  | recording r =>
      rw [watched?, perform, windows_performRecording] at h
      exact ⟨h, openings_eq_nil (s.begins_recordingDeeds r number)⟩
  | opening name owner source expectations hperform hdeeds =>
      have hlength : s.windows.length + 1 ≤ number := by
        simpa [hperform, watched?, addWindow, renamed, logged] using h
      refine ⟨List.getElem?_eq_none (by omega), ?_⟩
      rw [hdeeds]
      apply openings_eq_nil
      intro d hd
      rw [List.mem_singleton.mp hd]
      exact decide_eq_false (by omega)
  | watching name a =>
      refine ⟨?_, s.openings_watching name a number⟩
      rw [perform, performWatching_eq] at h
      split at h
      · exact h
      · simpa [quiet, watched?, setWindow] using h
  | unseen hview hdeeds =>
      rw [watched?, hview.windows] at h
      exact ⟨h, by rw [hdeeds]; rfl⟩

end Session

end CallWatch

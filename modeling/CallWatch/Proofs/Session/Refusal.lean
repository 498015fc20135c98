import CallWatch.Proofs.Session.Closing

namespace CallWatch.Session

variable {α : Type}

-- Whether what is asked of a window is refused once it is closed. Looking whether it is
-- closed is not, and an expectation that could not be built never gets to the window.
def Watching.needsOpen : Watching → Bool
  | .expect (.error _) | .verifyOne (.error _) | .isClosed => false
  | _ => true

def asked? (s : Session) : Step α → Option Nat
  | .act (.watching name a) => if a.needsOpen then (s.guardedWindow? name).map (·.1) else none
  | .act _ => none
  | .guarded _ name _ _ => (s.guardedWindow? name).map (·.1)

-- The site that an answer names if it is that the window is closed.
def Reply.closedSite? : Reply → Option String
  | .failed (.closed site) => some site
  | _ => none

def Report.closedSite? : Report α → Option String
  | .plain reply _ => reply.closedSite?
  | .guarded (.failed (.closed site)) _ _ => some site
  | .guarded (.callbackFailed _ (some (.closed site))) _ _ => some site
  | _ => none

-- How a step is refused: it fails with the site, and runs no callback.
def Step.refusal (site : String) : Step α → Report α
  | .act _ => .plain (.failed (.closed site)) .none
  | .guarded _ _ _ _ => .guarded (.failed (.closed site)) [] .none

variable (s : Session)

theorem watch_of_closed {w : Watched} {site : String} (h : w.window.closedAt = some site)
    {a : Watching} (ha : a.needsOpen) :
    s.watch w a = (w.window, .failed (.closed site)) := by
  cases a with
  | expect wanted | verifyOne wanted =>
      cases wanted with
      | error cause => cases ha
      | ok e => simp only [watch, Window.whenOpen, h, replyOf]
  | isClosed => cases ha
  | close other =>
      simp only [watch, Window.close, h]
      rfl
  | _ => simp only [watch, Window.whenOpen, h, replyOf]

theorem closedSite?_verified (found : Option Failures) :
    (verified (found.map .verification)).closedSite? = none := by
  cases found <;> rfl

theorem closedSite?_watch_of_open {w : Watched} (h : w.window.closedAt = none) (a : Watching) :
    (s.watch w a).2.closedSite? = none := by
  cases a with
  | expect wanted =>
      cases wanted with
      | error cause => rfl
      | ok e =>
          simp only [watch, Window.whenOpen, h]
          rfl
  | verifyOne wanted =>
      cases wanted with
      | error cause => rfl
      | ok e =>
          simp only [watch, Window.whenOpen, h, replyOf]
          cases w.window.check (s.ledgerOf w.source) e <;> rfl
  | verify =>
      simp only [watch, Window.whenOpen, h, replyOf]
      exact closedSite?_verified _
  | close site =>
      simp only [watch, Window.close, h, Window.verifyAll]
      cases Failures.ofList? (w.window.failures (s.ledgerOf w.source)) <;> rfl
  | _ =>
      simp only [watch, Window.whenOpen, h]
      rfl

theorem setWindow_self {number : Nat} {w : Watched} (hw : s.watched? number = some w) :
    s.setWindow number w.window = s := by
  have hwindows : s.windows.modify number (fun v => { v with window := w.window }) = s.windows := by
    apply List.ext_getElem?
    intro i
    rw [List.getElem?_modify]
    split
    · rename_i h
      subst h
      rw [watched?] at hw
      rw [hw]
      rfl
    · simp
  rw [setWindow, hwindows]

variable {s : Session} {number : Nat}

theorem closedSite?_eq {name : String} {w : Watched}
    (hw : s.guardedWindow? name = some (number, w)) :
    s.closedSite? number = w.window.closedAt := by
  rw [closedSite?, (s.guardedWindow?_eq_some_iff.mp hw).2]
  rfl

theorem exists_of_asked? {step : Step α} (h : s.asked? step = some number) :
    ∃ name w, s.guardedWindow? name = some (number, w) ∧
      ((∃ a, step = .act (.watching name a) ∧ a.needsOpen) ∨
        ∃ guard body ending, step = .guarded guard name body ending) := by
  have hwindow {name : String} (h : (s.guardedWindow? name).map (·.1) = some number) :
      ∃ w, s.guardedWindow? name = some (number, w) := by
    obtain ⟨⟨_, w⟩, hw, rfl⟩ := Option.map_eq_some_iff.mp h
    exact ⟨w, hw⟩
  cases step with
  | act action =>
      cases action with
      | watching name a =>
          rw [asked?] at h
          split at h
          · rename_i ha
            obtain ⟨w, hw⟩ := hwindow h
            exact ⟨name, w, hw, .inl ⟨a, rfl, ha⟩⟩
          · cases h
      | _ => cases h
  | guarded guard name body ending =>
      obtain ⟨w, hw⟩ := hwindow h
      exact ⟨name, w, hw, .inr ⟨guard, body, ending, rfl⟩⟩

-- A closed window changes nothing, runs no callback, and tells where it was closed.
theorem run_of_closed {step : Step α} {site : String} (hasked : s.asked? step = some number)
    (hclosed : s.closedSite? number = some site) : s.run step = (s, step.refusal site) := by
  obtain ⟨name, w, hw, ⟨a, rfl, ha⟩ | ⟨guard, body, ending, rfl⟩⟩ := exists_of_asked? hasked
  · rw [closedSite?_eq hw] at hclosed
    have hself := s.setWindow_self (s.guardedWindow?_eq_some_iff.mp hw).2
    rw [run, perform, performWatching_eq, hw]
    simp only [s.watch_of_closed hclosed ha, hself, quiet]
    rfl
  · rw [closedSite?_eq hw] at hclosed
    simp only [run, hw, hclosed]
    rfl

theorem closedSite?_conclude (s : Session) (number : Nat) (guard : Guard) (ending : Ending α)
    (inner : List (Report α)) (effects : Fault.Effects) :
    (Report.guarded (s.conclude number guard ending).1 inner effects).closedSite? = none := by
  have hfound : ∃ found : Option Failures,
      (s.watched? number).bind s.verify = found.map .verification := by
    cases s.watched? number with
    | none => exact ⟨none, rfl⟩
    | some w => exact ⟨_, rfl⟩
  obtain ⟨found, hfound⟩ := hfound
  rw [conclude, hfound]
  cases guard <;> cases ending <;> cases found <;> rfl

-- What starts while a window is open never fails for its being closed, not even where it is
-- closed in the meantime.
theorem closedSite?_run_of_open {step : Step α} (hasked : s.asked? step = some number)
    (hopen : s.closedSite? number = none) : (s.run step).2.closedSite? = none := by
  obtain ⟨name, w, hw, ⟨a, rfl, -⟩ | ⟨guard, body, ending, rfl⟩⟩ := exists_of_asked? hasked
  · rw [closedSite?_eq hw] at hopen
    have hreply := reply_watching hw a
    rw [run]
    exact (congrArg Reply.closedSite? hreply).trans (s.closedSite?_watch_of_open hopen a)
  · rw [closedSite?_eq hw] at hopen
    simp only [run, hw, hopen]
    exact closedSite?_conclude _ _ _ _ _ _

theorem run_isClosed {name : String} {w : Watched}
    (hw : s.guardedWindow? name = some (number, w)) :
    s.run (.act (.watching name .isClosed) : Step α) =
      (s, .plain (.closed (s.closedSite? number).isSome) .none) := by
  have hself := s.setWindow_self (s.guardedWindow?_eq_some_iff.mp hw).2
  rw [closedSite?_eq hw, run, perform, performWatching_eq, hw]
  simp only [watch, hself, quiet, Window.isClosed]

-- Whatever else a script does, the first step that asks to close a window closes it, and
-- decides over every step after it. Until then none fails for the window's being closed. From
-- then on each is refused with the site of that first step, runs no callback and leaves the
-- session as it was, for good.
theorem refused_from_first_closing (config : Config) (side : Option Ledger)
    (keeper : Option (Nat → Option String)) (steps : List (Step α))
    {earlier later : List (Session × Step α)} {t : Session} {step : Step α}
    (h : startsAll (start config side keeper) steps = earlier ++ (t, step) :: later)
    (number : Nat) :
    (Report.allOf ((start config side keeper).runAll steps).2)[earlier.length]? =
        some (t.run step).2 ∧
      (∀ name w, step = .act (.watching name .isClosed) →
        t.guardedWindow? name = some (number, w) →
          t.run step = (t, .plain (.closed (closings number earlier).head?.isSome) .none)) ∧
      (t.asked? step = some number →
        match (closings number earlier).head? with
        | none => (t.run step).2.closedSite? = none ∧
            ∀ site, t.closing? number step = some site →
              (t.run step).1.closedSite? number = some site
        | some site => t.run step = (t, step.refusal site)) := by
  have hsite : t.closedSite? number = (closings number earlier).head? :=
    closedSite?_of_startsAll h number
  refine ⟨?_, fun name w hstep hw => ?_, fun hasked => ?_⟩
  · rw [allOf_reports_runAll, h, List.map_append, List.map_cons]
    simp
  · rw [hstep, ← hsite]
    exact run_isClosed hw
  · cases hfirst : (closings number earlier).head? with
    | none =>
        rw [hfirst] at hsite
        refine ⟨closedSite?_run_of_open hasked hsite, fun site hclosing => ?_⟩
        rw [closedSite?_run, hsite, starts_of_closing? hclosing]
        simp [closings, hclosing]
    | some site =>
        rw [hfirst] at hsite
        exact run_of_closed hasked hsite

-- A window is closed though its expectation is not met. After that it runs no callback.
theorem refused_from_first_closing_unmet :
    let once : Expectation := ⟨none, .anyStatement, [(.calls, .exactly 1)]⟩
    let steps : List (Step Nat) :=
      [.act (.openWindow "spy" 7 (some (.ok once))), .act (.watching "spy" (.close "here")),
        .guarded .run "spy" [.act (.watching "spy" .verify)] (.value 1)]
    (Report.allOf ((start .standard none none).runAll steps).2)[2]? =
      some (.guarded (.failed (.closed "here")) [] .none) := by
  intro once steps
  let opened := ((start .standard none none).perform (.openWindow "spy" 7 (some (.ok once)))).1
  let closed := (opened.perform (.watching "spy" (.close "here"))).1
  have h : startsAll (start .standard none none) steps =
      [(start .standard none none, .act (.openWindow "spy" 7 (some (.ok once)))),
        (opened, .act (.watching "spy" (.close "here")))] ++
        (closed, .guarded .run "spy" [.act (.watching "spy" .verify)] (.value 1)) :: [] := rfl
  obtain ⟨hreport, -, hrefused⟩ := refused_from_first_closing .standard none none steps h 0
  have hrun := hrefused rfl
  exact hreport.trans (congrArg (some ·.2) hrun)

end CallWatch.Session

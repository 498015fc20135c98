import CallWatch.Proofs.Session.Beginnings
import CallWatch.Proofs.Session.Moments

namespace CallWatch.Session

variable {α : Type}

def Watching.closeSite? : Watching → Option String
  | .close site => some site
  | _ => none

-- Where a step asks to close a window.
def closing? (s : Session) (number : Nat) : Step α → Option String
  | .act (.watching name a) =>
      if (s.guardedWindow? name).map (·.1) = some number then a.closeSite? else none
  | _ => none

-- Where a run asked to close a window, each time that it did.
def closings (number : Nat) (moments : List (Session × Step α)) : List String :=
  moments.filterMap fun m => m.1.closing? number m.2

def closedSite? (s : Session) (number : Nat) : Option String :=
  (s.watched? number).bind (·.window.closedAt)

theorem closings_append (number : Nat) (a b : List (Session × Step α)) :
    closings number (a ++ b) = closings number a ++ closings number b :=
  List.filterMap_append

-- To guard a callback is not to close the window.
theorem closings_cons_guarded (number : Nat) (s : Session) (guard : Guard) (name : String)
    (body : List (Step α)) (ending : Ending α) (moments : List (Session × Step α)) :
    closings number ((s, .guarded guard name body ending) :: moments) = closings number moments :=
  List.filterMap_cons_none rfl

theorem starts_of_closing? {s : Session} {number : Nat} {step : Step α} {site : String}
    (h : s.closing? number step = some site) : starts s step = [(s, step)] := by
  cases step with
  | act action => rw [starts]
  | guarded guard name body ending => cases h

variable (s : Session)

-- Only closing closes a window, and only the first time.
theorem closedAt_watch (w : Watched) (a : Watching) :
    (s.watch w a).1.closedAt = w.window.closedAt.or a.closeSite? := by
  cases a with
  | expect wanted =>
      cases wanted with
      | error cause => exact (Option.or_none).symm
      | ok e =>
          rw [watch]
          split <;> exact (Option.or_none).symm
  | verifyOne wanted => cases wanted <;> exact (Option.or_none).symm
  | restart =>
      rw [watch]
      split <;> exact (Option.or_none).symm
  | close site =>
      simp only [watch, Window.close]
      cases hclosed : w.window.closedAt with
      | none => rfl
      | some earlier => exact hclosed
  | _ => exact (Option.or_none).symm

theorem closedSite?_of_windows {t : Session} (h : t.windows = s.windows) (number : Nat) :
    t.closedSite? number = s.closedSite? number := by
  rw [closedSite?, closedSite?, watched?, watched?, h]

-- A new window is open, and has a number of its own.
theorem closedSite?_addWindow (name : String) (owner : Nat) (source : Source)
    (expectations : List Expectation) (number : Nat) :
    (s.addWindow name owner source expectations).1.closedSite? number = s.closedSite? number := by
  rw [closedSite?, closedSite?, watched?, watched?, windows_addWindow]
  by_cases hlt : number < s.windows.length
  · rw [List.getElem?_append_left hlt]
  · rw [List.getElem?_append_right (Nat.not_lt.mp hlt),
      List.getElem?_eq_none (Nat.not_lt.mp hlt)]
    cases number - s.windows.length <;> rfl

theorem closedSite?_performWatching (name : String) (a : Watching) (number : Nat) :
    (s.performWatching name a).1.closedSite? number =
      (s.closedSite? number).or
        (if (s.guardedWindow? name).map (·.1) = some number then a.closeSite? else none) := by
  rw [performWatching_eq]
  cases hwindow : s.guardedWindow? name with
  | none => exact (Option.or_none).symm
  | some numbered =>
      obtain ⟨asked, w⟩ := numbered
      have hw := (s.guardedWindow?_eq_some_iff.mp hwindow).2
      simp only [quiet, closedSite?, s.watched?_setWindow hw, Option.map_some, Option.some.injEq]
      split
      · rename_i h
        subst h
        rw [hw]
        exact s.closedAt_watch w a
      · exact (Option.or_none).symm

theorem closedSite?_perform_of_not_watching {action : Action}
    (h : ∀ name a, action ≠ .watching name a) (number : Nat) :
    (s.perform action).1.closedSite? number = s.closedSite? number := by
  cases s.stepKind action with
  | recording r => exact s.closedSite?_of_windows (s.windows_performRecording r) number
  | opening name owner source expectations hperform hdeeds =>
      rw [hperform]
      exact s.closedSite?_addWindow name owner source expectations number
  | watching name a => exact absurd rfl (h name a)
  | unseen hview hdeeds => exact s.closedSite?_of_windows hview.windows number

theorem closedSite?_perform (action : Action) (number : Nat) :
    (s.perform action).1.closedSite? number =
      (s.closedSite? number).or (s.closing? number (.act action : Step α)) := by
  cases action with
  | watching name a => exact s.closedSite?_performWatching name a number
  | _ =>
      rw [s.closedSite?_perform_of_not_watching (by simp)]
      exact Option.or_none.symm

mutual

-- The first step that asks to close a window says where it is closed, whichever guards are
-- running around that step.
theorem closedSite?_run (s : Session) (step : Step α) (number : Nat) :
    (s.run step).1.closedSite? number =
      (s.closedSite? number).or (closings number (starts s step)).head? := by
  cases step with
  | act action =>
      rw [run, starts, closings, List.filterMap_cons, List.filterMap_nil]
      refine (s.closedSite?_perform (α := α) action number).trans ?_
      cases s.closing? number (.act action : Step α) <;> rfl
  | guarded guard name body ending =>
      cases s.guardKind guard name body ending with
      | stopped report hall hrun hstarts =>
          rw [hrun, hstarts, closings_cons_guarded]
          exact Option.or_none.symm
      | entered asked w hw hopen =>
          rw [run_guarded hw hopen, starts_guarded hw hopen, closings_cons_guarded]
          exact closedSite?_runAll (s.guarding asked) body number

theorem closedSite?_runAll (s : Session) (steps : List (Step α)) (number : Nat) :
    (s.runAll steps).1.closedSite? number =
      (s.closedSite? number).or (closings number (startsAll s steps)).head? := by
  cases steps with
  | nil =>
      rw [runAll, startsAll]
      exact (Option.or_none).symm
  | cons step rest =>
      rw [runAll, startsAll, closings_append, List.head?_append, ← Option.or_assoc,
        ← closedSite?_run, ← closedSite?_runAll]

end

mutual

-- The same at every moment of a run, inside callbacks too: the steps that count are those
-- started up to then.
theorem closedSite?_of_starts {s t : Session} {step now : Step α}
    {earlier later : List (Session × Step α)} (h : starts s step = earlier ++ (t, now) :: later)
    (number : Nat) :
    t.closedSite? number = (s.closedSite? number).or (closings number earlier).head? := by
  have halone (hstarts : starts s step = [(s, step)]) :
      t.closedSite? number = (s.closedSite? number).or (closings number earlier).head? := by
    rw [hstarts, List.singleton_eq_append_iff] at h
    rcases h with ⟨rfl, hnow⟩ | ⟨-, hnil⟩
    · cases hnow
      exact Option.or_none.symm
    · cases hnil
  cases step with
  | act action => exact halone (by rw [starts])
  | guarded guard name body ending =>
      cases s.guardKind guard name body ending with
      | stopped report hall hrun hstarts => exact halone hstarts
      | entered asked w hw hopen =>
          rw [starts_guarded hw hopen, List.cons_eq_append_iff] at h
          rcases h with ⟨rfl, hnow⟩ | ⟨inner, rfl, hinner⟩
          · cases hnow
            exact Option.or_none.symm
          · rw [closings_cons_guarded]
            exact closedSite?_of_startsAll (s := s.guarding asked) hinner number

theorem closedSite?_of_startsAll {s t : Session} {steps : List (Step α)} {now : Step α}
    {earlier later : List (Session × Step α)}
    (h : startsAll s steps = earlier ++ (t, now) :: later) (number : Nat) :
    t.closedSite? number = (s.closedSite? number).or (closings number earlier).head? := by
  cases steps with
  | nil => simp [startsAll] at h
  | cons step rest =>
      rw [startsAll, List.append_eq_append_iff] at h
      -- What the first step started is all earlier, or the moment lies in it or right after it.
      rcases h with ⟨after, rfl, hrest⟩ | ⟨after, hstep, hafter⟩
      · rw [closings_append, List.head?_append, ← Option.or_assoc, ← closedSite?_run]
        exact closedSite?_of_startsAll hrest number
      · cases after with
        | nil =>
            rw [List.append_nil] at hstep
            rw [← hstep, ← closedSite?_run]
            have hrest : startsAll (s.run step).1 rest = [] ++ (t, now) :: later := hafter.symm
            exact (closedSite?_of_startsAll hrest number).trans Option.or_none
        | cons first after =>
            obtain ⟨rfl, -⟩ := List.cons.inj hafter
            exact closedSite?_of_starts hstep number

end

end CallWatch.Session

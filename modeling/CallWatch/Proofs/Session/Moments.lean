import CallWatch.Session.Run

namespace CallWatch.Session

variable {α : Type}

mutual

-- The steps that a run starts, in the order in which it starts them, each with the session
-- that it starts in. A step comes before those of the callback that it guards.
def starts (s : Session) : Step α → List (Session × Step α)
  | .act action => [(s, .act action)]
  | .guarded guard name body ending =>
      (s, .guarded guard name body ending) ::
        match s.guardedWindow? name with
        | none => []
        | some (number, w) =>
            match w.window.closedAt with
            | some _ => []
            | none => startsAll (s.guarding number) body

def startsAll (s : Session) : List (Step α) → List (Session × Step α)
  | [] => []
  | step :: rest => starts s step ++ startsAll (s.run step).1 rest

end

mutual

-- A report, followed by the reports inside it.
def Report.all : Report α → List (Report α)
  | .plain reply effects => [.plain reply effects]
  | .guarded outcome inner effects => .guarded outcome inner effects :: allOf inner

def Report.allOf : List (Report α) → List (Report α)
  | [] => []
  | report :: rest => report.all ++ allOf rest

end

theorem run_guarded {s : Session} {name : String} {number : Nat} {w : Watched}
    (hw : s.guardedWindow? name = some (number, w)) (hopen : w.window.closedAt = none)
    (guard : Guard) (body : List (Step α)) (ending : Ending α) :
    s.run (.guarded guard name body ending) =
      let after := (s.guarding number).runAll body
      let left := after.1.unguarding s.guarded
      let concluded := after.1.conclude number guard ending
      (left, .guarded concluded.1 after.2 ⟨concluded.2 ++ left.letGo number, []⟩) := by
  simp only [run, hw, hopen]

theorem starts_guarded {s : Session} {name : String} {number : Nat} {w : Watched}
    (hw : s.guardedWindow? name = some (number, w)) (hopen : w.window.closedAt = none)
    (guard : Guard) (body : List (Step α)) (ending : Ending α) :
    starts s (.guarded guard name body ending) =
      (s, .guarded guard name body ending) :: startsAll (s.guarding number) body := by
  simp only [starts, hw, hopen]

-- What a guard comes to: it stops at once and changes nothing, or its window is open and the
-- steps of the callback are started.
inductive GuardKind (s : Session) (guard : Guard) (name : String) (body : List (Step α))
    (ending : Ending α) : Prop where
  | stopped (report : Report α) (hall : report.all = [report])
      (hrun : s.run (.guarded guard name body ending) = (s, report))
      (hstarts : starts s (.guarded guard name body ending) =
        [(s, .guarded guard name body ending)]) : GuardKind s guard name body ending
  | entered (number : Nat) (w : Watched) (hw : s.guardedWindow? name = some (number, w))
      (hopen : w.window.closedAt = none) : GuardKind s guard name body ending

theorem guardKind (s : Session) (guard : Guard) (name : String) (body : List (Step α))
    (ending : Ending α) : s.GuardKind guard name body ending := by
  cases hwindow : s.guardedWindow? name with
  | none =>
      refine .stopped (.plain (.unknown name) .none) rfl ?_ ?_
      · simp only [run, hwindow]
      · simp only [starts, hwindow]
  | some numbered =>
      obtain ⟨number, w⟩ := numbered
      cases hclosed : w.window.closedAt with
      | none => exact .entered number w hwindow hclosed
      | some site =>
          refine .stopped (.guarded (.failed (.closed site)) [] .none) rfl ?_ ?_
          · simp only [run, hwindow, hclosed]
          · simp only [starts, hwindow, hclosed]

mutual

-- Every step that is started reports once, and what it reports is what it comes to where
-- it starts.
theorem all_report_run (s : Session) (step : Step α) :
    (s.run step).2.all = (starts s step).map fun m => (m.1.run m.2).2 := by
  cases step with
  | act action =>
      rw [starts, List.map_singleton, run]
      rfl
  | guarded guard name body ending =>
      cases s.guardKind guard name body ending with
      | stopped report hall hrun hstarts => rw [hstarts, List.map_singleton, hrun, hall]
      | entered number w hw hopen =>
          rw [starts_guarded hw hopen, List.map_cons, ← allOf_reports_runAll, run_guarded hw hopen]
          rfl

theorem allOf_reports_runAll (s : Session) (steps : List (Step α)) :
    Report.allOf (s.runAll steps).2 = (startsAll s steps).map fun m => (m.1.run m.2).2 := by
  cases steps with
  | nil =>
      rw [runAll, startsAll]
      rfl
  | cons step rest =>
      rw [runAll, startsAll, List.map_append, ← all_report_run, ← allOf_reports_runAll]
      rfl

end

end CallWatch.Session

import CallWatch.Proofs.Session.Beginnings
import CallWatch.Proofs.Session.Moments
import CallWatch.Proofs.Window.Findings

namespace CallWatch.Session

variable {α : Type}

-- The same window, at a later time.
structure Watched.Later (w later : Watched) : Prop where
  source : later.source = w.source
  owner : later.window.owner = w.window.owner

theorem Watched.Later.refl (w : Watched) : w.Later w :=
  ⟨rfl, rfl⟩

theorem Watched.Later.trans {a b c : Watched} (hab : a.Later b) (hbc : b.Later c) : a.Later c :=
  ⟨hbc.source.trans hab.source, hbc.owner.trans hab.owner⟩

-- A window is never lost, whether it is closed, restarted or let go of.
theorem exists_watched?_perform {s : Session} {number : Nat} {w : Watched}
    (hw : s.watched? number = some w) (action : Action) :
    ∃ later, (s.perform action).1.watched? number = some later ∧ w.Later later := by
  cases hlater : (s.perform action).1.watched? number with
  | none =>
      have hnone := (s.openings_of_watched?_eq_none action hlater).1
      rw [hw] at hnone
      cases hnone
  | some later =>
      cases s.windowStep_perform action hlater with
      | opened owner source expectations hnumber hdeeds =>
          rw [watched?, hnumber, List.getElem?_eq_none (Nat.le_refl _)] at hw
          cases hw
      | restarted before hbefore hdeeds =>
          rw [hw] at hbefore
          cases hbefore
          exact ⟨_, rfl, rfl, rfl⟩
      | kept before hbefore later hcontinues hdeeds =>
          rw [hw] at hbefore
          cases hbefore
          exact ⟨_, rfl, rfl, hcontinues.owner⟩

mutual

theorem exists_watched?_run {s : Session} {number : Nat} {w : Watched}
    (hw : s.watched? number = some w) (step : Step α) :
    ∃ later, (s.run step).1.watched? number = some later ∧ w.Later later := by
  cases step with
  | act action =>
      rw [run]
      exact exists_watched?_perform hw action
  | guarded guard name body ending =>
      cases s.guardKind guard name body ending with
      | stopped report hall hrun hstarts =>
          rw [hrun]
          exact ⟨w, hw, .refl w⟩
      | entered asked v hasked hopen =>
          have hguarding : (s.guarding asked).watched? number = some w := hw
          rw [run_guarded hasked hopen]
          exact exists_watched?_runAll hguarding body

theorem exists_watched?_runAll {s : Session} {number : Nat} {w : Watched}
    (hw : s.watched? number = some w) (steps : List (Step α)) :
    ∃ later, (s.runAll steps).1.watched? number = some later ∧ w.Later later := by
  cases steps with
  | nil =>
      rw [runAll]
      exact ⟨w, hw, .refl w⟩
  | cons step rest =>
      obtain ⟨now, hnow, hfirst⟩ := exists_watched?_run hw step
      obtain ⟨later, hlater, hrest⟩ := exists_watched?_runAll hnow rest
      rw [runAll]
      exact ⟨later, hlater, hfirst.trans hrest⟩

end

end CallWatch.Session

namespace CallWatch.Guard

variable {α : Type}

-- What may become of a callback that ended in some way, and of what was found after it. Each
-- outcome comes up for the endings and findings named with it, and for no others.
structure Settles (guard : Guard) (ending : Ending α) (found : Option WindowError)
    (outcome : Outcome α) (logged : List Event) : Prop where
  value : ∀ a, outcome = .value a ↔ ending = .value a ∧ found = none
  failed : ∀ error, outcome = .failed error ↔ found = some error ∧
    ((∃ a, ending = .value a) ∨ guard = .run ∧ ∃ callback, ending = .failure callback)
  callbackFailed : ∀ callback suppressed, outcome = .callbackFailed callback suppressed ↔
    guard = .execute ∧ ending = .failure callback ∧ suppressed = found
  returnedFailure : ∀ callback, outcome = .returnedFailure callback ↔
    guard = .run ∧ ending = .failure callback ∧ found = none
  escaped : ∀ message, outcome = .escaped message ↔ guard = .execute ∧ ending = .panic message
  resumed : ∀ message, outcome = .resumed message ↔ guard = .run ∧ ending = .panic message
  logged : logged = match guard, ending with
    | .run, .panic _ => (found.map maskedFailure).toList
    | _, _ => []

theorem settles_conclude (guard : Guard) (ending : Ending α) (found : Option WindowError) :
    guard.Settles ending found (guard.conclude ending found).1
      (guard.conclude ending found).2 := by
  cases guard <;> cases ending <;> cases found <;> constructor <;> simp [conclude, eq_comm]

end CallWatch.Guard

namespace CallWatch.Session

variable {α : Type}

-- A guard on an open window runs its callback once and then looks once at what the window
-- expects by then, in the session as the callback left it, even if the callback closed or
-- restarted the window. Neither an error of the callback nor one that is found takes the place
-- of the other.
theorem settles_after_callback {s : Session} {name : String} {number : Nat} {w : Watched}
    (hw : s.guardedWindow? name = some (number, w)) (hopen : w.window.closedAt = none)
    (guard : Guard) (body : List (Step α)) (ending : Ending α) :
    let after := (s.guarding number).runAll body
    let left := after.1.unguarding s.guarded
    ∃ later found outcome logged,
      after.1.watched? number = some later ∧ w.Later later ∧
        later.window.Finds (after.1.ledgerOf later.source) found ∧
        s.run (.guarded guard name body ending) =
          (left, .guarded outcome after.2 ⟨logged ++ left.letGo number, []⟩) ∧
        guard.Settles ending found outcome logged := by
  intro after left
  have hguarding : (s.guarding number).watched? number = some w :=
    (s.guardedWindow?_eq_some_iff.mp hw).2
  obtain ⟨later, hlater, hsame⟩ := exists_watched?_runAll hguarding body
  have hconclude : after.1.conclude number guard ending =
      guard.conclude ending (after.1.verify later) := by
    rw [conclude, hlater]
    rfl
  refine ⟨later, after.1.verify later, _, _, hlater, hsame, later.window.finds_verifyAll _, ?_,
    guard.settles_conclude ending (after.1.verify later)⟩
  rw [← hconclude]
  exact run_guarded hw hopen guard body ending

-- The callback fails after it closed the window. Its error comes with the failure that is found.
theorem settles_after_callback_closing :
    let once : Expectation := ⟨none, .anyStatement, [(.calls, .exactly 1)]⟩
    let s := ((start .standard none none).perform (.openWindow "spy" 7 (some (.ok once)))).1
    let step : Step Nat :=
      .guarded .execute "spy" [.act (.watching "spy" (.close "inside"))] (.failure "boom")
    ∃ failures inner effects, (s.run step).2 =
      .guarded (.callbackFailed "boom" (some (.verification failures))) inner effects := by
  intro once s step
  let w : Watched := ⟨{ Window.openOn .standard 7 ((start .standard none none).ledgerOf .tap)
    (start .standard none none).tap.traffic with expectations := [once] }, .tap⟩
  have hw : s.guardedWindow? "spy" = some (0, w) := rfl
  obtain ⟨later, found, outcome, logged, hlater, -, hfinds, hrun, hsettles⟩ :=
    settles_after_callback hw rfl .execute [.act (.watching "spy" (.close "inside"))]
      (.failure "boom" : Ending Nat)
  have hclosed : some (⟨{ w.window with closedAt := some "inside" }, .tap⟩ : Watched) =
      some later := hlater
  have hledger : ((s.guarding 0).ledgerOf .tap).Keeps [] := Ledger.keeps_withPlacement _ _
  have hunmet : later.window.meets ((s.guarding 0).ledgerOf .tap) once = false := by
    rw [later.window.meets_of_keeps_nil hledger]
    decide
  have honce : once ∈ later.window.expectations := by
    rw [← Option.some.inj hclosed]
    exact List.mem_singleton_self _
  rw [← Option.some.inj hclosed] at hfinds hunmet honce
  obtain ⟨failures, rfl⟩ := hfinds.exists_failures honce hunmet
  have houtcome := (hsettles.callbackFailed "boom" _).mpr ⟨rfl, rfl, rfl⟩
  subst houtcome
  exact ⟨failures, _, _, congrArg Prod.snd hrun⟩

-- A panic escapes from `execute` with nothing found or logged, though an expectation is not
-- met. And where `run` finds a failure, an error that its callback returned is not told.
theorem execute_lets_panic_escape :
    let once : Expectation := ⟨none, .anyStatement, [(.calls, .exactly 1)]⟩
    let s := ((start .standard none none).perform (.openWindow "spy" 7 (some (.ok once)))).1
    ∃ w failures, s.guardedWindow? "spy" = some (0, w) ∧ w.window.closedAt = none ∧
      s.verify w = some (.verification failures) ∧
      (s.run (.guarded .execute "spy" [] (.panic "boom") : Step Nat)).2 =
        .guarded (.escaped "boom") [] .none ∧
      (s.run (.guarded .run "spy" [] (.failure "boom") : Step Nat)).2 =
        .guarded (.failed (.verification failures)) [] .none := by
  intro once s
  let w : Watched := ⟨{ Window.openOn .standard 7 ((start .standard none none).ledgerOf .tap)
    (start .standard none none).tap.traffic with expectations := [once] }, .tap⟩
  have hw : s.guardedWindow? "spy" = some (0, w) := rfl
  have hledger : (s.ledgerOf w.source).Keeps [] := Ledger.keeps_withPlacement _ _
  have hunmet : w.window.meets (s.ledgerOf w.source) once = false := by
    rw [w.window.meets_of_keeps_nil hledger]
    decide
  have hfinds : w.window.Finds (s.ledgerOf w.source) (s.verify w) :=
    w.window.finds_verifyAll (s.ledgerOf w.source)
  obtain ⟨failures, hfailures⟩ := hfinds.exists_failures (List.mem_singleton_self once) hunmet
  have hguarded : (s.guarding 0).watched? 0 = some w := rfl
  have hconclude (guard : Guard) (ending : Ending Nat) :
      (s.guarding 0).conclude 0 guard ending =
        guard.conclude ending (some (.verification failures)) := by
    rw [conclude, hguarded, Option.bind_some]
    exact congrArg (guard.conclude ending) hfailures
  refine ⟨w, failures, hw, rfl, hfailures, ?_, ?_⟩
  · rw [run_guarded hw rfl]
    simp only [runAll, hconclude]
    rfl
  · rw [run_guarded hw rfl]
    simp only [runAll, hconclude]
    rfl

end CallWatch.Session

import CallWatch.Proofs.Fault.Operations

namespace CallWatch.Fault

namespace Rules

variable {π τ : Type} [DecidableEq π] [Pattern π τ]

-- Only what is put down as open just now changes the rules.
theorem resolve_snd_ne_iff (rules : Rules π) (target : τ) :
    (rules.resolve target).2 ≠ rules ↔ (rules.resolve target).1 = .registered := by
  rw [resolve]
  cases rules.faultFor? target with
  | some status => simp
  | none =>
      by_cases h : rules.status? (Pattern.exact target) = some .opened
      · simp [h]
      · have hset : rules.set (Pattern.exact target) .opened ≠ rules := by
          intro heq
          have hstatus := status?_set rules (Pattern.exact target) (Pattern.exact target) .opened
          rw [heq, if_pos rfl] at hstatus
          exact h hstatus
        simp [h, hset]

end Rules

theorem Table.resolve_snd_ne_iff (t : Table) (target : Destination) :
    (t.resolve target).2 ≠ t ↔ (t.resolve target).1 = .registered := by
  obtain ⟨sockets, sources⟩ := t
  cases target with
  | socket s => simpa [resolve] using sockets.resolve_snd_ne_iff s
  | source d => simpa [resolve] using sources.resolve_snd_ne_iff d

namespace Registry

-- Whether a keeper is told about an operation: about every rule that is set, and about a
-- lookup that changes the rules.
def reports (r : Registry) (op : Operation) : Bool :=
  r.persistent && match op with
    | .setSocket _ _ | .setSource _ _ => true
    | .resolve _ _ => (r.perform op).1.rules ≠ r.rules
    | _ => false

-- What each operation hands to the keeper.
def handed (r : Registry) : List Operation → List (List Document)
  | [] => []
  | op :: rest => (r.perform op).2.2.documents :: (r.perform op).1.handed rest

@[simp]
theorem documents_log_append (event : Event) (effects : Effects) :
    (Effects.log event ++ effects).documents = effects.documents := rfl

theorem isSome_keeper_save (r : Registry) : r.save.1.keeper.isSome = r.keeper.isSome := by
  unfold save
  split
  · rename_i hkeeper
    simp [hkeeper]
  · simp

theorem documents_save {r : Registry} (h : r.keeper.isSome) :
    r.save.2.documents = if r.persistent then [r.save.1.document] else [] := by
  obtain ⟨keeper, hkeeper⟩ := Option.isSome_iff_exists.mp h
  cases hpersistent : r.persistent with
  | true =>
      have hsave : r.save.1.document = r.document := by
        obtain ⟨next, hnext⟩ := r.exists_save_eq
        rw [hnext]
        rfl
      rw [if_pos rfl, hsave, save, hpersistent, hkeeper]
  | false =>
      rw [save, hpersistent]
      simp [Effects.none]

theorem documents_settle {r : Registry} (h : r.keeper.isSome) (resolution : Resolution)
    (event : Event) :
    (r.settle resolution event).2.documents =
      if r.persistent ∧ resolution = .registered then [(r.settle resolution event).1.document]
      else [] := by
  cases resolution with
  | registered => simp [settle, documents_save h]
  | matched status => simp [settle, Effects.none]
  | known => simp [settle, Effects.none]

-- A keeper that there is stays, whatever happens.
theorem isSome_keeper_perform {r : Registry} (h : r.keeper.isSome) (op : Operation) :
    (r.perform op).1.keeper.isSome := by
  cases op with
  | setSocket pattern status =>
      change (save { r with rules := r.rules.setSocket pattern status }).1.keeper.isSome
      rwa [isSome_keeper_save]
  | setSource pattern status =>
      change (save { r with rules := r.rules.setSource pattern status }).1.keeper.isSome
      rwa [isSome_keeper_save]
  | resolve target scope =>
      rw [perform_resolve]
      cases hscope : (r.consulted? scope).bind (·.find? target) with
      | some status =>
          rw [resolve_of_scoped hscope]
          exact h
      | none =>
          rw [resolve_of_not_scoped hscope]
          cases (r.rules.resolve target).1 with
          | registered =>
              change (save { r with rules := (r.rules.resolve target).2 }).1.keeper.isSome
              rwa [isSome_keeper_save]
          | matched status => exact h
          | known => exact h
  | read text =>
      cases hread : Json.Format.document.ofText text with
      | ok document =>
          simp only [perform, hread]
          exact h
      | error defect =>
          simp only [perform, hread]
          exact h
  | setKeeper answer => rfl
  | clear => exact h
  | load document => exact h
  | setPersistent persistent => exact h
  | setThreadLocal threadLocal => exact h
  | newScope => exact h
  | dropScope scope => exact h
  | changeScope scope change => exact h

-- A keeper that there is gets the registry as it is right behind what is reported.
theorem documents_perform {r : Registry} (h : r.keeper.isSome) (op : Operation) :
    (r.perform op).2.2.documents = if r.reports op then [(r.perform op).1.document] else [] := by
  cases op with
  | setSocket pattern status =>
      let changed : Registry := { r with rules := r.rules.setSocket pattern status }
      have hsave : changed.save.2.documents =
          if r.persistent then [changed.save.1.document] else [] := documents_save h
      simpa [reports, perform, setSocket] using hsave
  | setSource pattern status =>
      let changed : Registry := { r with rules := r.rules.setSource pattern status }
      have hsave : changed.save.2.documents =
          if r.persistent then [changed.save.1.document] else [] := documents_save h
      simpa [reports, perform, setSource] using hsave
  | resolve target scope =>
      rw [reports, perform_resolve]
      cases hscope : (r.consulted? scope).bind (·.find? target) with
      | some status =>
          rw [resolve_of_scoped hscope]
          simp [Effects.none]
      | none =>
          let changed : Registry := { r with rules := (r.rules.resolve target).2 }
          have hsettle : ∀ resolution event, (changed.settle resolution event).2.documents =
              if r.persistent ∧ resolution = .registered then
                [(changed.settle resolution event).1.document]
              else [] := documents_settle h
          have hrules : ∀ resolution event,
              (changed.settle resolution event).1.rules = (r.rules.resolve target).2 := by
            intro resolution event
            obtain ⟨next, hnext⟩ := changed.exists_settle_eq resolution event
            rw [hnext]
          rw [resolve_of_not_scoped hscope]
          simp [changed, hrules, hsettle, Table.resolve_snd_ne_iff]
  | read text =>
      cases hread : Json.Format.document.ofText text with
      | ok document => simp [reports, perform, hread, Effects.none]
      | error defect => simp [reports, perform, hread, Effects.none]
  | clear => simp [reports, perform, clear, Effects.log]
  | load document => simp [reports, perform, Effects.none]
  | setPersistent persistent => simp [reports, perform, Effects.none]
  | setThreadLocal threadLocal => simp [reports, perform, Effects.none]
  | setKeeper answer => simp [reports, perform, Effects.none]
  | newScope => simp [reports, perform, Effects.none]
  | dropScope scope => simp [reports, perform, Effects.none]
  | changeScope scope change => simp [reports, perform, Effects.none]

-- The same registry in the hands of another keeper, or of none.
def withKeeper (r : Registry) (keeper : Option Keeper) : Registry :=
  { r with keeper }

theorem consulted?_withKeeper (r : Registry) (keeper : Option Keeper) (scope : Option Nat) :
    (r.withKeeper keeper).consulted? scope = r.consulted? scope := rfl

-- Nothing but the keeper itself comes to know which keeper there is.
theorem perform_withKeeper (r : Registry) (keeper : Option Keeper) (op : Operation) :
    ((r.withKeeper keeper).perform op).2.1 = (r.perform op).2.1 ∧
      ∃ next, ((r.withKeeper keeper).perform op).1 = (r.perform op).1.withKeeper next := by
  cases op with
  | setSocket pattern status =>
      obtain ⟨next, hnext⟩ := (r.withKeeper keeper).exists_perform_setSocket_eq pattern status
      obtain ⟨last, hlast⟩ := r.exists_perform_setSocket_eq pattern status
      rw [hnext, hlast]
      exact ⟨rfl, next, rfl⟩
  | setSource pattern status =>
      obtain ⟨next, hnext⟩ := (r.withKeeper keeper).exists_perform_setSource_eq pattern status
      obtain ⟨last, hlast⟩ := r.exists_perform_setSource_eq pattern status
      rw [hnext, hlast]
      exact ⟨rfl, next, rfl⟩
  | resolve target scope =>
      have hscope := r.consulted?_withKeeper keeper scope
      rw [perform_resolve, perform_resolve]
      cases hfault : (r.consulted? scope).bind (·.find? target) with
      | some status =>
          have hother : ((r.withKeeper keeper).consulted? scope).bind (·.find? target) =
              some status := by rw [hscope, hfault]
          rw [resolve_of_scoped hfault, resolve_of_scoped hother]
          exact ⟨rfl, keeper, rfl⟩
      | none =>
          have hother : ((r.withKeeper keeper).consulted? scope).bind (·.find? target) = none := by
            rw [hscope, hfault]
          obtain ⟨next, hnext⟩ := exists_resolve_eq hother
          obtain ⟨last, hlast⟩ := exists_resolve_eq hfault
          rw [hnext, hlast, resolve_of_not_scoped hfault, resolve_of_not_scoped hother]
          exact ⟨rfl, next, rfl⟩
  | read text =>
      cases hread : Json.Format.document.ofText text with
      | ok document =>
          simp only [perform, hread, true_and]
          exact ⟨keeper, rfl⟩
      | error defect =>
          simp only [perform, hread, true_and]
          exact ⟨keeper, rfl⟩
  | setKeeper answer => exact ⟨rfl, some ⟨0, answer⟩, rfl⟩
  | clear => exact ⟨rfl, keeper, rfl⟩
  | load document => exact ⟨rfl, keeper, rfl⟩
  | setPersistent persistent => exact ⟨rfl, keeper, rfl⟩
  | setThreadLocal threadLocal => exact ⟨rfl, keeper, rfl⟩
  | newScope => exact ⟨rfl, keeper, rfl⟩
  | dropScope scope => exact ⟨rfl, keeper, rfl⟩
  | changeScope scope change => exact ⟨rfl, keeper, rfl⟩

theorem run_withKeeper (r : Registry) (keeper : Option Keeper) (ops : List Operation) :
    (r.withKeeper keeper).answers ops = r.answers ops ∧
      ∃ next, (r.withKeeper keeper).run ops = (r.run ops).withKeeper next := by
  induction ops generalizing r keeper with
  | nil => exact ⟨rfl, keeper, rfl⟩
  | cons op rest ih =>
      obtain ⟨hanswer, next, hnext⟩ := r.perform_withKeeper keeper op
      obtain ⟨hanswers, last, hlast⟩ := ih (r.perform op).1 next
      refine ⟨?_, last, ?_⟩
      · rw [answers, answers, hanswer, hnext, hanswers]
      · rw [run_cons, run_cons, hnext, hlast]

theorem reports_withKeeper (r : Registry) (keeper : Option Keeper) (op : Operation) :
    (r.withKeeper keeper).reports op = r.reports op := by
  obtain ⟨-, next, hnext⟩ := r.perform_withKeeper keeper op
  simp only [reports, hnext]
  rfl

-- Keepers get to see the same, however they answer.
theorem handed_withKeeper {r : Registry} (hr : r.keeper.isSome) (keeper : Keeper)
    (ops : List Operation) : (r.withKeeper (some keeper)).handed ops = r.handed ops := by
  induction ops generalizing r keeper with
  | nil => rfl
  | cons op rest ih =>
      have hother : (r.withKeeper (some keeper)).keeper.isSome := rfl
      obtain ⟨-, next, hnext⟩ := r.perform_withKeeper (some keeper) op
      have hstays := isSome_keeper_perform hother op
      rw [hnext] at hstays
      obtain ⟨last, rfl⟩ := Option.isSome_iff_exists.mp hstays
      rw [handed, handed, documents_perform hother, documents_perform hr, reports_withKeeper, hnext,
        ih (isSome_keeper_perform hr op)]
      rfl

theorem isSome_keeper_run {r : Registry} (h : r.keeper.isSome) (ops : List Operation) :
    (r.run ops).keeper.isSome := by
  induction ops generalizing r with
  | nil => exact h
  | cons op rest ih => exact ih (isSome_keeper_perform h op)

-- A keeper is handed the registry as it is right behind every rule that is set and every
-- lookup that changes the rules, while persistence is on, and nothing else. How it answers
-- shows nowhere, and without a keeper everything else is the same.
theorem keeper_informed (r : Registry) (keeper : Keeper) (ops : List Operation) :
    let kept := r.withKeeper (some keeper)
    (∀ before op,
      let now := kept.run before
      (now.perform op).2.2.documents =
        if now.reports op then [(now.perform op).1.document] else []) ∧
      (∀ other : Keeper,
        let alike := r.withKeeper (some other)
        alike.answers ops = kept.answers ops ∧ alike.handed ops = kept.handed ops ∧
          ∃ next, alike.run ops = (kept.run ops).withKeeper next) ∧
      (r.withKeeper none).answers ops = kept.answers ops ∧
      ∃ next, (r.withKeeper none).run ops = (kept.run ops).withKeeper next := by
  intro kept
  have hkept : kept.keeper.isSome := rfl
  refine ⟨fun before op => ?_, fun other => ?_, kept.run_withKeeper none ops⟩
  · exact documents_perform (isSome_keeper_run hkept before) op
  · obtain ⟨hanswers, hrun⟩ := kept.run_withKeeper (some other) ops
    exact ⟨hanswers, handed_withKeeper hkept other ops, hrun⟩

-- A keeper that fails each time is handed a delay when it is set, and the delay together with
-- a data source that is looked up for the first time. A socket that is held by the delay
-- changes nothing, and a rule that is set before persistence is on is handed over later.
theorem keeper_informed_failing :
    let ops : List Operation :=
      [.setSocket ⟨none, some 80⟩ .closed, .setPersistent true,
        .setSocket ⟨some "db", none⟩ (.delay 5), .resolve (.socket ⟨"db", 5432, 1, none⟩) none,
        .resolve (.source ⟨"jdbc:h2", "sa"⟩) none]
    let failing := empty.withKeeper (some ⟨0, fun _ => some "disk full"⟩)
    let sockets : List SocketEntry := [⟨none, some 80, .closed⟩, ⟨some "db", none, .delay 5⟩]
    failing.handed ops =
        [[], [], [⟨true, sockets, []⟩], [],
          [⟨true, sockets, [⟨some "jdbc:h2", some "sa", .opened⟩]⟩]] ∧
      failing.answers ops = [.done, .done, .done, .status (.delay 5), .status .opened] ∧
      (empty.withKeeper none).answers ops = failing.answers ops := by
  intro ops failing sockets
  obtain ⟨-, halike, hanswers, -⟩ := keeper_informed empty ⟨0, fun _ => some "disk full"⟩ ops
  obtain ⟨-, hhanded, -⟩ := halike ⟨0, fun _ => none⟩
  exact ⟨hhanded.symm.trans rfl, rfl, hanswers⟩

end Registry

end CallWatch.Fault

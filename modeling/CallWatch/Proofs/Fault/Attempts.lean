import CallWatch.Proofs.Fault.Operations

namespace CallWatch.Fault

namespace Interruption

-- Nothing breaks a wait off before its end.
def Spares (i : Interruption) (wait : Nat) : Prop :=
  (∀ t ∈ i.cancelTime?, wait ≤ t) ∧ ∀ t ∈ i.abandon, wait ≤ t

-- A wait is cancelled at a time before its end, and not given up before that.
def CancelsAt (i : Interruption) (wait time : Nat) : Prop :=
  i.cancelTime? = some time ∧ time < wait ∧ ∀ t ∈ i.abandon, time ≤ t

-- A wait is given up at a time before its end, and not cancelled until then.
def AbandonsAt (i : Interruption) (wait time : Nat) : Prop :=
  i.abandon = some time ∧ time < wait ∧ ∀ t ∈ i.cancelTime?, time < t

end Interruption

namespace Attempt

theorem breakOff?_eq_none_iff {i : Interruption} {target : String} {wait : Nat} :
    breakOff? i target wait = none ↔ i.Spares wait := by
  rw [breakOff?, Option.filter_eq_none_iff, Interruption.Spares]
  cases i.cancelTime? with
  | none => cases i.abandon <;> simp
  | some cancel =>
      cases i.abandon with
      | none => simp
      | some abandon =>
          by_cases hfirst : cancel ≤ abandon
          · simp only [Option.map_some, hfirst, if_true, Option.some.injEq, forall_eq',
              decide_eq_true_eq, Nat.not_lt, Option.mem_def]
            omega
          · simp only [Option.map_some, hfirst, if_false, Option.some.injEq, forall_eq',
              decide_eq_true_eq, Nat.not_lt, Option.mem_def]
            omega

-- A wait is broken off by whatever comes first.
theorem breakOff?_eq_some_iff {i : Interruption} {target : String} {wait time : Nat}
    {outcome : Outcome} :
    breakOff? i target wait = some (time, outcome) ↔
      outcome = .cancelled target ∧ i.CancelsAt wait time ∨
        outcome = .abandoned ∧ i.AbandonsAt wait time := by
  rw [breakOff?, Option.filter_eq_some_iff, decide_eq_true_eq, Interruption.CancelsAt,
    Interruption.AbandonsAt]
  cases i.cancelTime? with
  | none =>
      cases i.abandon with
      | none => simp
      | some abandon =>
          simp only [Option.map_none, Option.map_some, Option.some.injEq, Prod.mk.injEq,
            Option.mem_def, reduceCtorEq, forall_eq']
          grind
  | some cancel =>
      cases i.abandon with
      | none =>
          simp only [Option.map_some, Option.map_none, Option.some.injEq, Prod.mk.injEq,
            Option.mem_def, reduceCtorEq, forall_eq']
          grind
      | some abandon =>
          by_cases hfirst : cancel ≤ abandon
          · simp only [Option.map_some, hfirst, if_true, Option.some.injEq, Prod.mk.injEq,
              Option.mem_def, forall_eq']
            grind
          · simp only [Option.map_some, hfirst, if_false, Option.some.injEq, Prod.mk.injEq,
              Option.mem_def, forall_eq']
            grind

def Ends (a : Attempt) (time : Nat) (outcome : Outcome) : Prop :=
  a.waited = time ∧ a.outcome = outcome

instance (a : Attempt) (time : Nat) (outcome : Outcome) : Decidable (a.Ends time outcome) :=
  inferInstanceAs (Decidable (a.waited = time ∧ a.outcome = outcome))

-- How an attempt on a target ends, and after what time, told from the status it follows. Only
-- a wait can be broken off, and only before its end.
structure Follows (a : Attempt) (status : Status) (target : String) (i : Interruption) :
    Prop where
  proceeds : ∀ time, a.Ends time (.decided .proceed) ↔ status = .opened ∧ time = 0
  delayed : ∀ time millis, a.Ends time (.decided (.delayed millis)) ↔
    ∃ n, status = .delay n ∧ 0 < n.toInt ∧ n.toInt = millis ∧ time = millis ∧ i.Spares millis
  refused : ∀ time refusal, a.Ends time (.decided (.refused refusal)) ↔
    refusal = ⟨target, status⟩ ∧ (status = .closed ∧ time = 0 ∨
      ∃ n, status = .delay n ∧ n.toInt < 0 ∧ time = n.toInt.natAbs ∧ i.Spares time)
  cancelled : ∀ time text, a.Ends time (.cancelled text) ↔
    text = target ∧ ∃ n, status = .delay n ∧ i.CancelsAt n.toInt.natAbs time
  abandoned : ∀ time, a.Ends time .abandoned ↔
    ∃ n, status = .delay n ∧ i.AbandonsAt n.toInt.natAbs time

variable (target : String) (i : Interruption)

theorem follows_run_opened : (run .opened target i).Follows .opened target i := by
  constructor <;> simp [Ends, run, decide, Status.wait?, Status.refuses, eq_comm]

theorem follows_run_closed : (run .closed target i).Follows .closed target i := by
  constructor <;> simp [Ends, run, decide, Status.wait?, Status.refuses, eq_comm, and_comm]

-- What a delay comes to if nothing breaks it off.
def endOfDelay (target : String) (n : Int32) : Decision :=
  if n.toInt < 0 then .refused ⟨target, .delay n⟩ else .delayed n.toInt.natAbs

theorem endOfDelay_ne_proceed (n : Int32) : endOfDelay target n ≠ .proceed := by
  rw [endOfDelay]
  split <;> simp

theorem endOfDelay_eq_delayed_iff {n : Int32} (hn : n ≠ 0) (millis : Nat) :
    endOfDelay target n = .delayed millis ↔ 0 < n.toInt ∧ n.toInt = millis := by
  have hsign : n.toInt ≠ 0 := fun h => hn (Int32.toInt_inj.mp h)
  rw [endOfDelay]
  split
  · simp only [reduceCtorEq, false_iff]
    omega
  · rw [Decision.delayed.injEq]
    omega

theorem endOfDelay_eq_refused_iff (n : Int32) (refusal : Refusal) :
    endOfDelay target n = .refused refusal ↔ refusal = ⟨target, .delay n⟩ ∧ n.toInt < 0 := by
  by_cases hneg : n.toInt < 0 <;> simp [endOfDelay, hneg, eq_comm]

theorem ends_run_delay {n : Int32} (hn : n ≠ 0) (time : Nat) (outcome : Outcome) :
    (run (.delay n) target i).Ends time outcome ↔
      outcome = .cancelled target ∧ i.CancelsAt n.toInt.natAbs time ∨
      outcome = .abandoned ∧ i.AbandonsAt n.toInt.natAbs time ∨
      outcome = .decided (endOfDelay target n) ∧ time = n.toInt.natAbs ∧ i.Spares time := by
  have hwait : (Status.delay n).wait? = some n.toInt.natAbs := if_neg hn
  rw [← or_assoc, ← breakOff?_eq_some_iff, run, hwait, Ends]
  cases hbreak : breakOff? i target n.toInt.natAbs with
  | some early =>
      have hearly : ¬ i.Spares n.toInt.natAbs := by
        intro hspares
        rw [breakOff?_eq_none_iff.mpr hspares] at hbreak
        nomatch hbreak
      grind
  | none =>
      have hspares := breakOff?_eq_none_iff.mp hbreak
      have hdecide : (decide (.delay n) target (some n.toInt.natAbs)).1 = endOfDelay target n := by
        by_cases hneg : n.toInt < 0 <;> simp [decide, endOfDelay, Status.refuses, hneg]
      grind

theorem follows_run_delay {n : Int32} (hn : n ≠ 0) :
    (run (.delay n) target i).Follows (.delay n) target i where
  proceeds time := by
    simp [ends_run_delay target i hn, (endOfDelay_ne_proceed target n).symm]
  delayed time millis := by
    have hend := ends_run_delay target i hn time (.decided (.delayed millis))
    have hdelayed := endOfDelay_eq_delayed_iff target hn millis
    grind
  refused time refusal := by
    have hend := ends_run_delay target i hn time (.decided (.refused refusal))
    have hrefused := endOfDelay_eq_refused_iff target n refusal
    grind
  cancelled time text := by
    simp [ends_run_delay target i hn]
  abandoned time := by
    simp [ends_run_delay target i hn]

theorem follows_run {status : Status} (h : status ≠ .delay 0) :
    (run status target i).Follows status target i := by
  cases status with
  | opened => exact follows_run_opened target i
  | closed => exact follows_run_closed target i
  | delay n => exact follows_run_delay target i fun hn => h (congrArg Status.delay hn)

end Attempt

namespace Table

theorem isOpen_of_find? {t : Table} {target : Destination} {status : Status}
    (h : t.find? target = some status) : status.isOpen = false := by
  cases target with
  | socket s => exact Rules.isOpen_of_faultFor? h
  | source d => exact Rules.isOpen_of_faultFor? h

theorem resolve_of_find? {t : Table} {target : Destination} {status : Status}
    (h : t.find? target = some status) : t.resolve target = (.matched status, t) := by
  cases target with
  | socket s => rw [resolve, Rules.resolve_of_faultFor? h]
  | source d => rw [resolve, Rules.resolve_of_faultFor? h]

end Table

namespace Registry

theorem connect_eq (r : Registry) (target : Destination) (scope : Option Nat) (i : Interruption) :
    let attempt := Attempt.run (r.resolve target scope).1 target.display i
    r.connect target scope i = (attempt, (r.resolve target scope).2.1,
      (r.resolve target scope).2.2 ++ ⟨attempt.events, []⟩) := by
  cases target <;> rfl

-- A fault is answered without anything being put down or handed over, be it a scope or a
-- global rule that knows of it.
theorem resolve_opened_or_fault (r : Registry) (target : Destination) (scope : Option Nat) :
    (r.resolve target scope).1 = .opened ∨
      (r.resolve target scope).1.isOpen = false ∧ (r.resolve target scope).2 = (r, .none) := by
  cases hscope : (r.consulted? scope).bind (·.find? target) with
  | some status =>
      obtain ⟨t, -, hfound⟩ := Option.bind_eq_some_iff.mp hscope
      rw [resolve_of_scoped hscope]
      exact .inr ⟨Table.isOpen_of_find? hfound, rfl⟩
  | none =>
      rw [status_resolve, hscope, Option.none_or]
      cases hfound : r.rules.find? target with
      | none => exact .inl rfl
      | some status =>
          exact .inr ⟨Table.isOpen_of_find? hfound,
            resolve_eq_self (Table.resolve_of_find? hfound) nofun⟩

-- An attempt ends as the status of its target tells, which is never a delay of nothing, and
-- unless it proceeds it leaves the registry as it was.
theorem connect_follows_status (r : Registry) (target : Destination) (scope : Option Nat)
    (i : Interruption) :
    let status := (r.resolve target scope).1
    let attempt := (r.connect target scope i).1
    status ≠ .delay 0 ∧ attempt.Follows status target.display i ∧
      (attempt.outcome ≠ .decided .proceed →
        (r.connect target scope i).2.1 = r ∧ (r.connect target scope i).2.2.documents = []) := by
  intro status attempt
  have hattempt : attempt = .run status target.display i :=
    congrArg Prod.fst (r.connect_eq target scope i)
  obtain hopened | ⟨hfault, hsame⟩ := r.resolve_opened_or_fault target scope
  · have hzero : status ≠ .delay 0 := fun h => nomatch hopened.symm.trans h
    have hfollows : attempt.Follows status target.display i :=
      hattempt ▸ Attempt.follows_run target.display i hzero
    refine ⟨hzero, hfollows, fun hproceed => absurd ?_ hproceed⟩
    exact ((hfollows.proceeds 0).mpr ⟨hopened, rfl⟩).2
  · have hzero : status ≠ .delay 0 := by
      intro h
      rw [show (r.resolve target scope).1 = .delay 0 from h] at hfault
      nomatch hfault
    refine ⟨hzero, hattempt ▸ Attempt.follows_run target.display i hzero, fun _ => ?_⟩
    rw [connect_eq, hsame]
    exact ⟨rfl, rfl⟩

-- A scope holds a data source back for as long as can be said, only to refuse it. One attempt is
-- cancelled just before that.
theorem connect_follows_status_minValue :
    let db : Destination := .source ⟨"h2:mem", "sa"⟩
    let slow : Table → Table := (·.setSource ⟨some "h2:mem", none⟩ (.delay Int32.minValue))
    let r := Registry.empty.run [.newScope, .changeScope 0 slow, .setThreadLocal true]
    let last : Interruption := ⟨some (.after 2147483647), none⟩
    let cancelled := r.connect db (some 0) last
    let patient := r.connect db (some 0) ⟨some (.after 2147483648), none⟩
    cancelled.1.Ends 2147483647 (.cancelled "sa@h2:mem") ∧
      patient.1.Ends 2147483648 (.decided (.refused ⟨"sa@h2:mem", .delay Int32.minValue⟩)) ∧
      cancelled.1.outcome ≠ .decided .proceed ∧
      cancelled.2.1 = r ∧ cancelled.2.2.documents = [] := by
  intro db slow r last cancelled patient
  have hcancelled : cancelled.1.outcome ≠ .decided .proceed := by decide
  have hkept := (r.connect_follows_status db (some 0) last).2.2 hcancelled
  exact ⟨by decide, by decide, hcancelled, hkept⟩

end Registry

end CallWatch.Fault

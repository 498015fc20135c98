import CallWatch.Proofs.Fault.Discovery
import CallWatch.Proofs.Fault.Shift

namespace CallWatch.Fault

-- A run in which some lookups are left out later.
inductive Step where
  | keep (op : Operation)
  | skip (target : Destination) (scope : Option Nat)

namespace Step

def operation : Step → Operation
  | keep op => op
  | skip target scope => .resolve target scope

def kept? : Step → Option Operation
  | keep op => some op
  | skip _ _ => none

end Step

namespace Destination

def exactSockets (found : List Destination) : List SocketPattern :=
  (found.filterMap socket?).map Pattern.exact

def exactSources (found : List Destination) : List SourcePattern :=
  (found.filterMap source?).map Pattern.exact

end Destination

namespace Table

def Lists (t : Table) : Destination → Prop
  | .socket s => Pattern.exact s ∈ t.sockets.patterns
  | .source d => Pattern.exact d ∈ t.sources.patterns

instance (t : Table) (target : Destination) : Decidable (t.Lists target) :=
  match target with
  | .socket s => inferInstanceAs (Decidable (Pattern.exact s ∈ t.sockets.patterns))
  | .source d => inferInstanceAs (Decidable (Pattern.exact d ∈ t.sources.patterns))

def Settled (found : List Destination) (t : Table) : Destination → Prop
  | .socket s => t.sockets.Settled (Destination.exactSockets found) s
  | .source d => t.sources.Settled (Destination.exactSources found) d

instance (found : List Destination) (t : Table) (target : Destination) :
    Decidable (t.Settled found target) :=
  match target with
  | .socket s => inferInstanceAs (Decidable (t.sockets.Settled _ s))
  | .source d => inferInstanceAs (Decidable (t.sources.Settled _ d))

structure Shifted (found : List Destination) (a b : Table) : Prop where
  sockets : Rules.Shifted (Destination.exactSockets found) a.sockets b.sockets
  sources : Rules.Shifted (Destination.exactSources found) a.sources b.sources

namespace Shifted

variable {found : List Destination} {a b : Table}

protected theorem refl (t : Table) : Shifted [] t t :=
  ⟨.refl t.sockets, .refl t.sources⟩

theorem find?_eq_none_iff (h : Shifted found a b) (target : Destination) :
    a.find? target = none ↔ b.find? target = none := by
  cases target with
  | socket s => exact h.sockets.faultFor?_eq_none_iff s
  | source d => exact h.sources.faultFor?_eq_none_iff d

theorem find?_eq (h : Shifted found a b) {target : Destination} (hs : a.Settled found target) :
    a.find? target = b.find? target := by
  cases target with
  | socket s => exact h.sockets.faultFor?_eq hs
  | source d => exact h.sources.faultFor?_eq hs

protected theorem resolve (h : Shifted found a b) (target : Destination) :
    Shifted found (a.resolve target).2 (b.resolve target).2 := by
  cases target with
  | socket s => exact ⟨h.sockets.resolve s, h.sources⟩
  | source d => exact ⟨h.sockets, h.sources.resolve d⟩

theorem resolve_left (h : Shifted found a b) {target : Destination}
    (hlisted : (a.resolve target).2.Lists target → a.Lists target) :
    Shifted found (a.resolve target).2 b := by
  cases target with
  | socket s => exact ⟨h.sockets.resolve_left hlisted, h.sources⟩
  | source d => exact ⟨h.sockets, h.sources.resolve_left hlisted⟩

theorem resolve_left_new (h : Shifted found a b) {target : Destination} (hnew : ¬a.Lists target)
    (hlisted : (a.resolve target).2.Lists target) :
    Shifted (target :: found) (a.resolve target).2 b := by
  cases target with
  | socket s => exact ⟨h.sockets.resolve_left_new hnew hlisted, h.sources⟩
  | source d => exact ⟨h.sockets, h.sources.resolve_left_new hnew hlisted⟩

protected theorem enter (h : Shifted found a b) (d : Document) :
    Shifted found (d.enter a) (d.enter b) :=
  ⟨h.sockets.foldl_set SocketEntry.pattern SocketEntry.status d.sockets,
    h.sources.foldl_set SourceEntry.pattern SourceEntry.status d.sources⟩

end Shifted

end Table

namespace Registry

-- What a run comes to, together with the targets that were first listed by lookups to be
-- left out, since the registry was last cleared.
def track : Registry × List Destination → Step → Registry × List Destination
  | (r, _), .keep .clear => ((r.perform .clear).1, [])
  | (r, found), .keep op => ((r.perform op).1, found)
  | (r, found), .skip target scope =>
      let after := (r.resolve target scope).2.1
      (after, if ¬r.rules.Lists target ∧ after.rules.Lists target then target :: found else found)

def found (r : Registry) (steps : List Step) : List Destination :=
  (steps.foldl track (r, [])).2

-- The registries of two runs, one of which has left lookups out.
structure Alongside (found : List Destination) (a b : Registry) : Prop where
  rules : Table.Shifted found a.rules b.rules
  held : a.held = b.held
  tracked : a.tracked = b.tracked
  nextScope : a.nextScope = b.nextScope
  threadLocal : a.threadLocal = b.threadLocal

namespace Alongside

variable {found : List Destination} {a b : Registry}

protected theorem refl (r : Registry) : Alongside [] r r :=
  ⟨.refl r.rules, rfl, rfl, rfl, rfl⟩

theorem isHeld_eq (h : Alongside found a b) : a.isHeld = b.isHeld := by
  funext scope
  rw [isHeld, isHeld, h.held]

theorem consulted?_eq (h : Alongside found a b) (scope : Option Nat) :
    a.consulted? scope = b.consulted? scope := by
  have hscope : a.scope? = b.scope? := by
    funext n
    rw [scope?, scope?, h.held]
  rw [consulted?, consulted?, h.threadLocal, hscope]

protected theorem resolve (h : Alongside found a b) (target : Destination) (scope : Option Nat) :
    Alongside found (a.resolve target scope).2.1 (b.resolve target scope).2.1 := by
  have hscope := h.consulted?_eq scope
  cases hfault : (a.consulted? scope).bind (·.find? target) with
  | some status =>
      rw [resolve_of_scoped hfault, resolve_of_scoped (hscope ▸ hfault)]
      exact h
  | none =>
      obtain ⟨k, hk⟩ := exists_resolve_eq hfault
      obtain ⟨l, hl⟩ := exists_resolve_eq (hscope ▸ hfault)
      rw [hk, hl]
      exact ⟨h.rules.resolve target, h.held, h.tracked, h.nextScope, h.threadLocal⟩

-- Only one run looks the target up.
theorem resolve_left (h : Alongside found a b) (target : Destination) (scope : Option Nat) :
    let after := (a.resolve target scope).2.1
    Alongside
      (if ¬a.rules.Lists target ∧ after.rules.Lists target then target :: found else found)
      after b := by
  intro after
  cases hfault : (a.consulted? scope).bind (·.find? target) with
  | some status =>
      have hafter : after = a := congrArg (·.2.1) (resolve_of_scoped hfault)
      rw [hafter, if_neg fun hnew => hnew.1 hnew.2]
      exact h
  | none =>
      obtain ⟨keeper, hkeeper⟩ := exists_resolve_eq hfault
      have hafter : after = { a with rules := (a.rules.resolve target).2, keeper } := hkeeper
      rw [hafter]
      split
      · rename_i hnew
        exact ⟨h.rules.resolve_left_new hnew.1 hnew.2, h.held, h.tracked, h.nextScope,
          h.threadLocal⟩
      · rename_i hold
        refine ⟨h.rules.resolve_left fun hlisted => ?_, h.held, h.tracked, h.nextScope,
          h.threadLocal⟩
        exact not_not.mp fun hnew => hold ⟨hnew, hlisted⟩

protected theorem clear (h : Alongside found a b) : Alongside [] a.clear.1 b.clear.1 := by
  refine ⟨.refl .empty, ?_, ?_, h.nextScope, h.threadLocal⟩
  · simp only [clear, h.held, h.tracked]
  · simp only [clear, h.tracked, h.isHeld_eq]

protected theorem load (h : Alongside found a b) (d : Document) :
    Alongside found (a.load d) (b.load d) :=
  ⟨h.rules.enter d, h.held, h.tracked, h.nextScope, h.threadLocal⟩

-- Both runs do the same.
protected theorem perform (h : Alongside found a b) (op : Operation) (hop : op ≠ .clear) :
    Alongside found (a.perform op).1 (b.perform op).1 := by
  cases op with
  | setSocket pattern status =>
      obtain ⟨k, hk⟩ := a.exists_perform_setSocket_eq pattern status
      obtain ⟨l, hl⟩ := b.exists_perform_setSocket_eq pattern status
      rw [hk, hl]
      exact ⟨⟨h.rules.sockets.set pattern status, h.rules.sources⟩, h.held, h.tracked,
        h.nextScope, h.threadLocal⟩
  | setSource pattern status =>
      obtain ⟨k, hk⟩ := a.exists_perform_setSource_eq pattern status
      obtain ⟨l, hl⟩ := b.exists_perform_setSource_eq pattern status
      rw [hk, hl]
      exact ⟨⟨h.rules.sockets, h.rules.sources.set pattern status⟩, h.held, h.tracked,
        h.nextScope, h.threadLocal⟩
  | resolve target scope => exact h.resolve target scope
  | clear => exact absurd rfl hop
  | load document => exact h.load document
  | read text =>
      cases hread : Json.Format.document.ofText text with
      | ok document =>
          simp only [Registry.perform, hread]
          exact h.load document
      | error defect =>
          simp only [Registry.perform, hread]
          exact h
  | setPersistent persistent => exact ⟨h.rules, h.held, h.tracked, h.nextScope, h.threadLocal⟩
  | setThreadLocal threadLocal => exact ⟨h.rules, h.held, h.tracked, h.nextScope, rfl⟩
  | setKeeper answer => exact ⟨h.rules, h.held, h.tracked, h.nextScope, h.threadLocal⟩
  | newScope =>
      refine ⟨h.rules, ?_, ?_, congrArg (· + 1) h.nextScope, h.threadLocal⟩
      · simp only [Registry.perform, newScope, h.held, h.nextScope]
      · simp only [Registry.perform, newScope, h.tracked, h.nextScope, h.isHeld_eq]
  | dropScope scope =>
      refine ⟨h.rules, ?_, h.tracked, h.nextScope, h.threadLocal⟩
      simp only [Registry.perform, dropScope, h.held]
  | changeScope scope change =>
      refine ⟨h.rules, ?_, h.tracked, h.nextScope, h.threadLocal⟩
      simp only [Registry.perform, updateScope, h.held]

end Alongside

theorem track_fst (r : Registry) (found : List Destination) (step : Step) :
    (track (r, found) step).1 = (r.perform step.operation).1 := by
  cases step with
  | keep op => cases op <;> rfl
  | skip target scope => rfl

theorem Alongside.track {found : List Destination} {a b : Registry} (h : Alongside found a b)
    (step : Step) :
    Alongside (Registry.track (a, found) step).2 (Registry.track (a, found) step).1
      (b.run step.kept?.toList) := by
  cases step with
  | keep op =>
      by_cases hop : op = .clear
      · subst hop
        exact h.clear
      · have htrack : Registry.track (a, found) (.keep op) = ((a.perform op).1, found) := by
          cases op <;> first | rfl | exact absurd rfl hop
        rw [htrack]
        exact h.perform op hop
  | skip target scope => exact h.resolve_left target scope

theorem alongside_foldl_track {found : List Destination} {a b : Registry}
    (h : Alongside found a b) (steps : List Step) :
    Alongside (steps.foldl track (a, found)).2 (steps.foldl track (a, found)).1
      (b.run (steps.filterMap Step.kept?)) := by
  induction steps generalizing found a b with
  | nil => exact h
  | cons step rest ih =>
      have hstep := ih (h.track step)
      rw [← run_append] at hstep
      cases step with
      | keep op => exact hstep
      | skip target scope => exact hstep

theorem foldl_track_fst (r : Registry) (found : List Destination) (steps : List Step) :
    (steps.foldl track (r, found)).1 = r.run (steps.map Step.operation) := by
  induction steps generalizing r found with
  | nil => rfl
  | cons step rest ih =>
      rw [List.foldl_cons, ← Prod.eta (track (r, found) step), ih, track_fst]
      rfl

theorem alongside_run (r : Registry) (steps : List Step) :
    Alongside (r.found steps) (r.run (steps.map Step.operation))
      (r.run (steps.filterMap Step.kept?)) := by
  rw [← foldl_track_fst r [] steps]
  exact alongside_foldl_track (.refl r) steps

theorem answers_getElem? (r : Registry) (before after : List Operation) (op : Operation) :
    (r.answers (before ++ op :: after))[before.length]? =
      some ((r.run before).perform op).2.1 := by
  rw [answers_append, List.getElem?_append_right (by simp), length_answers, Nat.sub_self]
  rfl

-- Lookups that are left out take no fault with them and bring none. What a remaining
-- lookup answers stays the same, unless by then a target that one of them was the first
-- to list has a fault that competes with another one.
theorem lookups_passive (r : Registry) (before after : List Step) (target : Destination)
    (scope : Option Nat) :
    let full := r.run (before.map Step.operation)
    let thinned := r.run (before.filterMap Step.kept?)
    let steps := before ++ .keep (.resolve target scope) :: after
    (∀ rule, rule ∈ full.rules.sockets.faults ↔ rule ∈ thinned.rules.sockets.faults) ∧
      (∀ rule, rule ∈ full.rules.sources.faults ↔ rule ∈ thinned.rules.sources.faults) ∧
      (full.rules.Settled (r.found before) target →
        (r.answers (steps.map Step.operation))[(before.map Step.operation).length]? =
          (r.answers (steps.filterMap Step.kept?))[(before.filterMap Step.kept?).length]?) := by
  intro full thinned steps
  have halong : Alongside (r.found before) full thinned := r.alongside_run before
  refine ⟨halong.rules.sockets.mem_faults_iff, halong.rules.sources.mem_faults_iff,
    fun hsettled => ?_⟩
  have hanswer : (full.resolve target scope).1 = (thinned.resolve target scope).1 := by
    rw [status_resolve, status_resolve, halong.consulted?_eq scope,
      halong.rules.find?_eq hsettled]
  rw [show steps.map Step.operation = before.map Step.operation ++
      .resolve target scope :: after.map Step.operation by simp [steps, Step.operation],
    show steps.filterMap Step.kept? = before.filterMap Step.kept? ++
      .resolve target scope :: after.filterMap Step.kept? by simp [steps, Step.kept?],
    answers_getElem?, answers_getElem?, perform_resolve, perform_resolve]
  exact congrArg (fun status => some (Answer.status status)) hanswer

theorem lookups_passive_agreeing :
    let db : Socket := ⟨"db", 5432, -1, none⟩
    let before : List Step := [.skip (.socket db) none,
      .keep (.setSocket ⟨some "db", none⟩ .closed), .keep (.setSocket (.exact db) .closed)]
    let steps : List Step := before ++ [.keep (.resolve (.socket db) none)]
    (Registry.empty.run (before.map Step.operation)).rules.Settled (Registry.empty.found before)
        (.socket db) ∧
      (Registry.empty.answers (steps.map Step.operation))[3]? =
        (Registry.empty.answers (steps.filterMap Step.kept?))[2]? := by
  intro db before steps
  have hsettled : (Registry.empty.run (before.map Step.operation)).rules.Settled
      (Registry.empty.found before) (.socket db) := by decide
  exact ⟨hsettled,
    (lookups_passive Registry.empty before [] (.socket db) none).2.2 hsettled⟩

-- A rule keeps the place at which its pattern was first listed. A lookup takes that place
-- for its target, in front of rules that are set later, and a fault set on the target
-- then comes first.
theorem lookup_takes_place :
    ¬∀ (r : Registry) (before after : List Step) (target : Destination) (scope : Option Nat),
      let steps := before ++ .keep (.resolve target scope) :: after
      (r.answers (steps.map Step.operation))[(before.map Step.operation).length]? =
        (r.answers (steps.filterMap Step.kept?))[(before.filterMap Step.kept?).length]? := by
  intro h
  let db : Socket := ⟨"db", 5432, -1, none⟩
  have hsame := h Registry.empty
    [.skip (.socket db) none, .keep (.setSocket ⟨some "db", none⟩ (.delay 5)),
      .keep (.setSocket (.exact db) .closed)] [] (.socket db) none
  exact absurd hsame (by decide)

end Registry

end CallWatch.Fault

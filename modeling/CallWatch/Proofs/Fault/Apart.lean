import CallWatch.Proofs.Fault.Discovery

namespace CallWatch.Fault

namespace Table

-- The rules of one table in front of those of another.
def inFrontOf (own base : Table) : Table where
  sockets := own.sockets ++ base.sockets
  sources := own.sources ++ base.sources

theorem find?_inFrontOf (own base : Table) (target : Destination) :
    (own.inFrontOf base).find? target = (own.find? target).or (base.find? target) := by
  cases target with
  | socket s => exact own.sockets.faultFor?_append base.sockets s
  | source d => exact own.sources.faultFor?_append base.sources d

@[simp]
theorem find?_empty (target : Destination) : empty.find? target = none := by
  cases target <;> rfl

-- Tables that differ at most in what is open.
def SameFaults (a b : Table) : Prop :=
  a.sockets.faults = b.sockets.faults ∧ a.sources.faults = b.sources.faults

theorem SameFaults.refl (t : Table) : t.SameFaults t :=
  ⟨rfl, rfl⟩

theorem SameFaults.symm {a b : Table} (h : a.SameFaults b) : b.SameFaults a :=
  ⟨h.1.symm, h.2.symm⟩

theorem SameFaults.trans {a b c : Table} (h : a.SameFaults b) (hnext : b.SameFaults c) :
    a.SameFaults c :=
  ⟨h.1.trans hnext.1, h.2.trans hnext.2⟩

theorem SameFaults.find?_eq {a b : Table} (h : a.SameFaults b) (target : Destination) :
    a.find? target = b.find? target := by
  cases target with
  | socket s => exact Rules.faultFor?_congr h.1 s
  | source d => exact Rules.faultFor?_congr h.2 d

theorem sameFaults_resolve (t : Table) (target : Destination) :
    (t.resolve target).2.SameFaults t := by
  cases target with
  | socket s => exact ⟨t.sockets.faults_resolve s, rfl⟩
  | source d => exact ⟨rfl, t.sources.faults_resolve d⟩

end Table

namespace Operation

-- Operations that leave the global rules to lookups: scopes are changed, and consulted or
-- not.
inductive Scoping : Operation → Prop where
  | resolve (target : Destination) (scope : Option Nat) : Scoping (.resolve target scope)
  | changeScope (scope : Nat) (change : Table → Table) : Scoping (.changeScope scope change)
  | setThreadLocal (threadLocal : Bool) : Scoping (.setThreadLocal threadLocal)

-- Whether an operation is not about another scope than the given one.
def concerns (own : Nat) : Operation → Bool
  | .resolve _ (some scope) => scope = own
  | .changeScope scope _ => scope = own
  | _ => true

end Operation

namespace Registry

-- The answers to all operations that are not about another scope.
def answersTo (r : Registry) (own : Nat) : List Operation → List Answer
  | [] => []
  | op :: rest =>
      if op.concerns own then (r.perform op).2.1 :: (r.perform op).1.answersTo own rest
      else (r.perform op).1.answersTo own rest

-- A lookup takes nothing from the faults of the global rules, and no scope is touched.
theorem resolve_keeps (r : Registry) (target : Destination) (scope : Option Nat) :
    (r.resolve target scope).2.1.rules.SameFaults r.rules ∧
      (r.resolve target scope).2.1.held = r.held ∧
      (r.resolve target scope).2.1.threadLocal = r.threadLocal := by
  cases h : (r.consulted? scope).bind (·.find? target) with
  | some status =>
      rw [resolve_of_scoped h]
      exact ⟨.refl r.rules, rfl, rfl⟩
  | none =>
      obtain ⟨keeper, hkeeper⟩ := exists_resolve_eq h
      rw [hkeeper]
      exact ⟨r.rules.sameFaults_resolve target, rfl, rfl⟩

-- Scopes whose tables have changed, each by its number.
theorem scope?_of_held_eq {r next : Registry} (change : Nat → Table → Table)
    (h : next.held = r.held.map fun entry => (entry.1, change entry.1 entry.2)) (scope : Nat) :
    next.scope? scope = (r.scope? scope).map (change scope) := by
  rw [scope?, scope?, h, List.find?_map, Option.map_map, Option.map_map]
  refine Option.map_congr fun entry hentry => ?_
  have hscope : entry.1 = scope := by simpa using List.find?_some hentry
  rw [Function.comp_apply, Function.comp_apply, hscope]

theorem scope?_updateScope (r : Registry) (scope own : Nat) (change : Table → Table) :
    (r.updateScope scope change).scope? own =
      if scope = own then (r.scope? own).map change else r.scope? own := by
  have hheld : (r.updateScope scope change).held =
      r.held.map fun entry => (entry.1, if scope = entry.1 then change entry.2 else entry.2) := by
    refine List.map_congr_left fun entry _ => ?_
    by_cases h : scope = entry.1 <;> simp [h, Ne.symm]
  rw [scope?_of_held_eq (fun n t => if scope = n then change t else t) hheld]
  split
  · rfl
  · exact Option.map_id'

-- Two registries that one scope, and whoever names no scope, cannot tell apart.
structure Beside (own : Nat) (a b : Registry) : Prop where
  faults : a.rules.SameFaults b.rules
  scope : a.scope? own = b.scope? own
  threadLocal : a.threadLocal = b.threadLocal

namespace Beside

variable {own : Nat} {a b : Registry}

protected theorem refl (own : Nat) (r : Registry) : Beside own r r :=
  ⟨.refl r.rules, rfl, rfl⟩

theorem symm (h : Beside own a b) : Beside own b a :=
  ⟨h.faults.symm, h.scope.symm, h.threadLocal.symm⟩

theorem trans {c : Registry} (h : Beside own a b) (hnext : Beside own b c) : Beside own a c :=
  ⟨h.faults.trans hnext.faults, h.scope.trans hnext.scope, h.threadLocal.trans hnext.threadLocal⟩

theorem resolve (own : Nat) (r : Registry) (target : Destination) (scope : Option Nat) :
    Beside own (r.resolve target scope).2.1 r := by
  obtain ⟨hfaults, hheld, hlocal⟩ := r.resolve_keeps target scope
  refine ⟨hfaults, ?_, hlocal⟩
  rw [scope?, hheld, scope?]

theorem updateScope (h : Beside own a b) (scope : Nat) (change : Table → Table) :
    Beside own (a.updateScope scope change) (b.updateScope scope change) := by
  refine ⟨h.faults, ?_, h.threadLocal⟩
  rw [scope?_updateScope, scope?_updateScope, h.scope]

theorem updateScope_of_ne {scope : Nat} (hscope : scope ≠ own) (r : Registry)
    (change : Table → Table) : Beside own (r.updateScope scope change) r := by
  refine ⟨.refl r.rules, ?_, rfl⟩
  rw [scope?_updateScope, if_neg hscope]

theorem status_eq (h : Beside own a b) (target : Destination) {scope : Option Nat}
    (hscope : scope = none ∨ scope = some own) :
    (a.resolve target scope).1 = (b.resolve target scope).1 := by
  have hconsulted : a.consulted? scope = b.consulted? scope := by
    obtain rfl | rfl := hscope
    · simp
    · simp [consulted?, h.threadLocal, h.scope]
  rw [status_resolve, status_resolve, hconsulted, h.faults.find?_eq]

-- What is about another scope goes by unnoticed.
theorem perform_left {op : Operation} (hop : op.Scoping) (hother : op.concerns own = false)
    (r : Registry) : Beside own (r.perform op).1 r := by
  cases hop with
  | resolve target scope => exact .resolve own r target scope
  | changeScope scope change =>
      have hscope : scope ≠ own := by simpa [Operation.concerns] using hother
      exact updateScope_of_ne hscope r change
  | setThreadLocal threadLocal => simp [Operation.concerns] at hother

-- Everything else is answered alike.
theorem perform (h : Beside own a b) {op : Operation} (hop : op.Scoping)
    (hown : op.concerns own) :
    (a.perform op).2.1 = (b.perform op).2.1 ∧ Beside own (a.perform op).1 (b.perform op).1 := by
  cases hop with
  | resolve target scope =>
      have hscope : scope = none ∨ scope = some own := by
        cases scope with
        | none => exact .inl rfl
        | some n => exact .inr (by simpa [Operation.concerns] using hown)
      have hafter : Beside own (a.resolve target scope).2.1 (b.resolve target scope).2.1 :=
        (resolve own a target scope).trans (h.trans (resolve own b target scope).symm)
      rw [perform_resolve, perform_resolve]
      exact ⟨congrArg Answer.status (h.status_eq target hscope), hafter⟩
  | changeScope scope change => exact ⟨rfl, h.updateScope scope change⟩
  | setThreadLocal threadLocal => exact ⟨rfl, h.faults, h.scope, rfl⟩

end Beside

-- A scope sees of a run what it sees when nothing is done about other scopes.
theorem answersTo_eq {own : Nat} {a b : Registry} (h : Beside own a b) {ops : List Operation}
    (hops : ∀ op ∈ ops, op.Scoping) :
    a.answersTo own ops = b.answers (ops.filter (·.concerns own)) ∧
      Beside own (a.run ops) (b.run (ops.filter (·.concerns own))) := by
  induction ops generalizing a b with
  | nil => exact ⟨rfl, h⟩
  | cons op rest ih =>
      obtain ⟨hop, hrest⟩ := List.forall_mem_cons.mp hops
      by_cases hown : op.concerns own
      · obtain ⟨hanswer, hafter⟩ := h.perform hop hown
        obtain ⟨hanswers, hrun⟩ := ih hafter hrest
        rw [List.filter_cons_of_pos hown, answersTo, if_pos hown, answers, hanswer, hanswers]
        exact ⟨rfl, hrun⟩
      · have hafter := (Beside.perform_left hop (by simpa using hown) a).trans h
        rw [List.filter_cons_of_neg hown, answersTo, if_neg hown]
        exact ih hafter hrest

-- Lookups leave the faults of the global rules alone, and so does everything done about
-- scopes.
theorem sameFaults_run {r : Registry} {ops : List Operation} (hops : ∀ op ∈ ops, op.Scoping) :
    (r.run ops).rules.SameFaults r.rules := by
  induction ops generalizing r with
  | nil => exact .refl r.rules
  | cons op rest ih =>
      obtain ⟨hop, hrest⟩ := List.forall_mem_cons.mp hops
      have hstep : (r.perform op).1.rules.SameFaults r.rules := by
        cases hop with
        | resolve target scope => exact (r.resolve_keeps target scope).1
        | changeScope scope change => exact .refl r.rules
        | setThreadLocal threadLocal => exact .refl r.rules
      exact (ih hrest).trans hstep

-- A registry whose global rules have kept their faults answers from the rules as they were.
theorem answers_resolve_none {r : Registry} {rules : Table} (h : r.rules.SameFaults rules)
    (target : Destination) : rules.Answers target (r.resolve target none).1 := by
  have hstatus : (r.resolve target none).1 = (rules.find? target).getD .opened := by
    rw [status_resolve, consulted?_none, Option.bind_none, Option.none_or, h.find?_eq]
  rw [hstatus]
  exact rules.answers_find? target

theorem answers_resolve_some {r : Registry} {rules : Table} (h : r.rules.SameFaults rules)
    (target : Destination) (own : Nat) :
    (if r.threadLocal then (r.table (some own)).inFrontOf rules else rules).Answers target
      (r.resolve target (some own)).1 := by
  cases hlocal : r.threadLocal with
  | true =>
      have hown : (r.consulted? (some own)).bind (·.find? target) =
          (r.table (some own)).find? target := by
        cases hscope : r.scope? own <;> simp [consulted?, table, hlocal, hscope]
      have hstatus : (r.resolve target (some own)).1 =
          (((r.table (some own)).inFrontOf rules).find? target).getD .opened := by
        rw [status_resolve, hown, Table.find?_inFrontOf, h.find?_eq]
      rw [if_pos rfl, hstatus]
      exact Table.answers_find? _ target
  | false =>
      have hown : r.consulted? (some own) = none := by simp [consulted?, hlocal]
      have hstatus : (r.resolve target (some own)).1 = (rules.find? target).getD .opened := by
        rw [status_resolve, hown, Option.bind_none, Option.none_or, h.find?_eq]
      rw [if_neg (by simp), hstatus]
      exact rules.answers_find? target

-- Whoever asks through a scope is answered by the rules of that scope as they are then, if
-- scopes count at all, and otherwise, like whoever asks through none, by the global rules as
-- they were at first. What is done about other scopes in between shows nowhere, and no
-- lookup touches a scope.
theorem scopes_apart (r : Registry) (own : Nat) {ops other : List Operation}
    (hops : ∀ op ∈ ops, op.Scoping) (hother : ∀ op ∈ other, op.Scoping)
    (hsame : ops.filter (·.concerns own) = other.filter (·.concerns own)) :
    let now := r.run ops
    r.answersTo own ops = r.answersTo own other ∧
      now.table (some own) = (r.run other).table (some own) ∧
      ∀ target,
        r.rules.Answers target (now.resolve target none).1 ∧
        (if now.threadLocal then (now.table (some own)).inFrontOf r.rules else r.rules).Answers target
          (now.resolve target (some own)).1 ∧
        ∀ scope, (now.resolve target scope).2.1.held = now.held := by
  intro now
  obtain ⟨hanswers, hrun⟩ := answersTo_eq (.refl own r) hops
  obtain ⟨hanswers', hrun'⟩ := answersTo_eq (.refl own r) hother
  have hscope : now.scope? own = (r.run other).scope? own := by
    rw [hrun.scope, hrun'.scope, hsame]
  have hfaults : now.rules.SameFaults r.rules := sameFaults_run hops
  refine ⟨?_, ?_, fun target => ⟨answers_resolve_none hfaults target,
    answers_resolve_some hfaults target own, fun scope => (now.resolve_keeps target scope).2.1⟩⟩
  · rw [hanswers, hanswers', hsame]
  · rw [table, table, hscope]

-- One scope slows a host down. Through another one it is first listed and then closed.
theorem scopes_apart_two :
    let db : Destination := .socket ⟨"db", 5432, -1, none⟩
    let host : SocketPattern := ⟨some "db", none⟩
    let r := Registry.empty.run [.newScope, .newScope]
    let slow : Operation := .changeScope 0 (·.setSocket host (.delay 7))
    let shut : Operation := .changeScope 1 (·.setSocket host .closed)
    let other : List Operation := [.setThreadLocal true, slow, .resolve db (some 0)]
    let ops : List Operation := [.resolve db (some 1), shut, .setThreadLocal true,
      .resolve db (some 1), slow, .resolve db (some 0)]
    (∀ op ∈ ops, op.Scoping) ∧ (∀ op ∈ other, op.Scoping) ∧
      ops.filter (·.concerns 0) = other.filter (·.concerns 0) ∧
      r.answersTo 0 ops = r.answersTo 0 other ∧
      r.answersTo 0 other = [.done, .done, .status (.delay 7)] := by
  intro db host r slow shut other ops
  have hops : ∀ op ∈ ops, op.Scoping := by
    simp [ops, slow, shut, Operation.Scoping.resolve, Operation.Scoping.changeScope,
      Operation.Scoping.setThreadLocal]
  have hother : ∀ op ∈ other, op.Scoping := by
    simp [other, slow, Operation.Scoping.resolve, Operation.Scoping.changeScope,
      Operation.Scoping.setThreadLocal]
  have hsame : ops.filter (·.concerns 0) = other.filter (·.concerns 0) := by
    simp [ops, other, slow, shut, Operation.concerns]
  exact ⟨hops, hother, hsame, (scopes_apart r 0 hops hother hsame).1, by decide⟩

end Registry

end CallWatch.Fault

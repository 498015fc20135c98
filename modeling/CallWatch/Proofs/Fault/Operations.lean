import CallWatch.Fault.Attempt
import CallWatch.Json.Format.Document
import CallWatch.Proofs.Fault.Listing

namespace CallWatch.Fault

-- What can be asked of a registry. A scope is named by its number. Its table belongs to
-- the callers that hold it, who may change it in any way.
inductive Operation where
  | setSocket (pattern : SocketPattern) (status : Status)
  | setSource (pattern : SourcePattern) (status : Status)
  | resolve (target : Destination) (scope : Option Nat)
  | clear
  | load (document : Document)
  | read (text : String)
  | setPersistent (persistent : Bool)
  | setThreadLocal (threadLocal : Bool)
  | setKeeper (answer : Nat → Option String)
  | newScope
  | dropScope (scope : Nat)
  | changeScope (scope : Nat) (change : Table → Table)

-- Operations that make, change, empty or let go of scopes.
def Operation.aboutScopes : Operation → Bool
  | .newScope | .dropScope _ | .changeScope _ _ | .clear => true
  | _ => false

inductive Answer where
  | done
  | status (status : Status)
  | unreadable (defect : Json.Defect)
deriving DecidableEq

def Destination.discovered : Destination → Event
  | .socket s => Registry.socketDiscovered s
  | .source d => Registry.sourceDiscovered d

namespace Table

def find? (t : Table) : Destination → Option Status
  | .socket s => t.findSocket? s
  | .source d => t.findSource? d

-- A target is looked up, and listed, among the rules of its kind.
def resolve (t : Table) : Destination → Resolution × Table
  | .socket s => ((t.sockets.resolve s).1, { t with sockets := (t.sockets.resolve s).2 })
  | .source d => ((t.sources.resolve d).1, { t with sources := (t.sources.resolve d).2 })

theorem status_resolve (t : Table) (target : Destination) :
    (t.resolve target).1.status = (t.find? target).getD .opened := by
  cases target with
  | socket s => exact Rules.status_resolve t.sockets s
  | source d => exact Rules.status_resolve t.sources d

def Distinct (t : Table) : Prop :=
  t.sockets.Distinct ∧ t.sources.Distinct

theorem Distinct.empty : Table.empty.Distinct :=
  ⟨List.nodup_nil, List.nodup_nil⟩

theorem Distinct.enter {t : Table} (h : t.Distinct) (d : Document) : (d.enter t).Distinct :=
  ⟨h.1.foldl_set SocketEntry.pattern SocketEntry.status d.sockets,
    h.2.foldl_set SourceEntry.pattern SourceEntry.status d.sources⟩

theorem Distinct.resolve {t : Table} (h : t.Distinct) (target : Destination) :
    (t.resolve target).2.Distinct := by
  cases target with
  | socket s => exact ⟨h.1.resolve s, h.2⟩
  | source d => exact ⟨h.1, h.2.resolve d⟩

-- What may be done to a table, short of emptying it.
inductive Changes (t : Table) : Table → Prop where
  | same : Changes t t
  | setSocket (pattern : SocketPattern) (status : Status) : Changes t (t.setSocket pattern status)
  | setSource (pattern : SourcePattern) (status : Status) : Changes t (t.setSource pattern status)
  | resolve (target : Destination) : Changes t (t.resolve target).2
  | enter (document : Document) : Changes t (document.enter t)

theorem Distinct.changes {t next : Table} (h : t.Distinct) (hnext : t.Changes next) :
    next.Distinct := by
  cases hnext with
  | same => exact h
  | setSocket pattern status => exact ⟨h.1.set pattern status, h.2⟩
  | setSource pattern status => exact ⟨h.1, h.2.set pattern status⟩
  | resolve target => exact h.resolve target
  | enter document => exact h.enter document

end Table

namespace Registry

def resolve (r : Registry) (target : Destination) (scope : Option Nat) :
    Status × Registry × Effects :=
  match target with
  | .socket s => r.resolveSocket s scope
  | .source d => r.resolveSource d scope

def perform (r : Registry) : Operation → Registry × Answer × Effects
  | .setSocket pattern status =>
      let (r, effects) := r.setSocket pattern status
      (r, .done, effects)
  | .setSource pattern status =>
      let (r, effects) := r.setSource pattern status
      (r, .done, effects)
  | .resolve target scope =>
      let (status, r, effects) := r.resolve target scope
      (r, .status status, effects)
  | .clear =>
      let (r, effects) := r.clear
      (r, .done, effects)
  | .load document => (r.load document, .done, .none)
  | .read text =>
      match Json.Format.document.ofText text with
      | .ok document => (r.load document, .done, .none)
      | .error defect => (r, .unreadable defect, .none)
  | .setPersistent persistent => (r.setPersistent persistent, .done, .none)
  | .setThreadLocal threadLocal => (r.setThreadLocal threadLocal, .done, .none)
  | .setKeeper answer => (r.setKeeper answer, .done, .none)
  | .newScope => (r.newScope.1, .done, .none)
  | .dropScope scope => (r.dropScope scope, .done, .none)
  | .changeScope scope change => (r.updateScope scope change, .done, .none)

theorem perform_resolve (r : Registry) (target : Destination) (scope : Option Nat) :
    r.perform (.resolve target scope) =
      ((r.resolve target scope).2.1, .status (r.resolve target scope).1,
        (r.resolve target scope).2.2) := rfl

def run (r : Registry) (ops : List Operation) : Registry :=
  ops.foldl (fun r op => (r.perform op).1) r

def answers (r : Registry) : List Operation → List Answer
  | [] => []
  | op :: rest => (r.perform op).2.1 :: (r.perform op).1.answers rest

@[simp]
theorem run_nil (r : Registry) : r.run [] = r := rfl

@[simp]
theorem run_cons (r : Registry) (op : Operation) (rest : List Operation) :
    r.run (op :: rest) = (r.perform op).1.run rest := rfl

theorem run_append (r : Registry) (a b : List Operation) : r.run (a ++ b) = (r.run a).run b :=
  List.foldl_append

@[simp]
theorem length_answers (r : Registry) (ops : List Operation) :
    (r.answers ops).length = ops.length := by
  induction ops generalizing r with
  | nil => rfl
  | cons op rest ih => simp [answers, ih]

theorem answers_append (r : Registry) (a b : List Operation) :
    r.answers (a ++ b) = r.answers a ++ (r.run a).answers b := by
  induction a generalizing r with
  | nil => rfl
  | cons op rest ih => simp [answers, ih]

-- To save a registry changes nothing in it but what its keeper has been handed.
theorem exists_save_eq (r : Registry) : ∃ keeper, r.save.1 = { r with keeper } := by
  unfold save
  split
  · exact ⟨_, rfl⟩
  · exact ⟨r.keeper, rfl⟩

theorem exists_settle_eq (r : Registry) (resolution : Resolution) (event : Event) :
    ∃ keeper, (r.settle resolution event).1 = { r with keeper } := by
  cases resolution with
  | registered => exact r.exists_save_eq
  | matched status => exact ⟨r.keeper, rfl⟩
  | known => exact ⟨r.keeper, rfl⟩

theorem exists_perform_setSocket_eq (r : Registry) (pattern : SocketPattern) (status : Status) :
    ∃ keeper, (r.perform (.setSocket pattern status)).1 =
      { r with rules := r.rules.setSocket pattern status, keeper } :=
  exists_save_eq { r with rules := r.rules.setSocket pattern status }

theorem exists_perform_setSource_eq (r : Registry) (pattern : SourcePattern) (status : Status) :
    ∃ keeper, (r.perform (.setSource pattern status)).1 =
      { r with rules := r.rules.setSource pattern status, keeper } :=
  exists_save_eq { r with rules := r.rules.setSource pattern status }

@[simp]
theorem consulted?_none (r : Registry) : r.consulted? none = none := by
  simp [consulted?]

-- What a scope knows a fault of is answered by it alone.
theorem resolve_of_scoped {r : Registry} {target : Destination} {scope : Option Nat}
    {status : Status} (h : (r.consulted? scope).bind (·.find? target) = some status) :
    r.resolve target scope = (status, r, .none) := by
  cases target with
  | socket s =>
      change (r.consulted? scope).bind (·.findSocket? s) = some status at h
      rw [resolve, resolveSocket, h]
  | source d =>
      change (r.consulted? scope).bind (·.findSource? d) = some status at h
      rw [resolve, resolveSource, h]

-- Everything else is up to the global rules.
theorem resolve_of_not_scoped {r : Registry} {target : Destination} {scope : Option Nat}
    (h : (r.consulted? scope).bind (·.find? target) = none) :
    r.resolve target scope =
      ((r.rules.resolve target).1.status,
        { r with rules := (r.rules.resolve target).2 }.settle (r.rules.resolve target).1
          target.discovered) := by
  cases target with
  | socket s =>
      change (r.consulted? scope).bind (·.findSocket? s) = none at h
      rw [resolve, resolveSocket, h]
      rfl
  | source d =>
      change (r.consulted? scope).bind (·.findSource? d) = none at h
      rw [resolve, resolveSource, h]
      rfl

theorem exists_resolve_eq {r : Registry} {target : Destination} {scope : Option Nat}
    (h : (r.consulted? scope).bind (·.find? target) = none) :
    ∃ keeper, (r.resolve target scope).2.1 =
      { r with rules := (r.rules.resolve target).2, keeper } := by
  rw [resolve_of_not_scoped h]
  exact exists_settle_eq { r with rules := (r.rules.resolve target).2 } _ _

-- A target that the rules know already changes nothing.
theorem resolve_eq_self {r : Registry} {target : Destination} {scope : Option Nat}
    {resolution : Resolution} (h : r.rules.resolve target = (resolution, r.rules))
    (hknown : resolution ≠ .registered) : (r.resolve target scope).2 = (r, .none) := by
  cases hscope : (r.consulted? scope).bind (·.find? target) with
  | some status => rw [resolve_of_scoped hscope]
  | none =>
      rw [resolve_of_not_scoped hscope, h]
      cases resolution with
      | registered => exact absurd rfl hknown
      | matched status => rfl
      | known => rfl

theorem status_resolve (r : Registry) (target : Destination) (scope : Option Nat) :
    (r.resolve target scope).1 =
      (((r.consulted? scope).bind (·.find? target)).or (r.rules.find? target)).getD .opened := by
  cases h : (r.consulted? scope).bind (·.find? target) with
  | some status => rw [resolve_of_scoped h, Option.some_or, Option.getD_some]
  | none =>
      rw [resolve_of_not_scoped h, Table.status_resolve, Option.none_or]

-- What is not about scopes changes the global rules in one of few ways, and no scope.
theorem exists_perform_eq (r : Registry) {op : Operation} (hop : op.aboutScopes = false) :
    ∃ rules threadLocal persistent keeper, r.rules.Changes rules ∧
      (r.perform op).1 = { r with rules, threadLocal, persistent, keeper } := by
  cases op with
  | setSocket pattern status =>
      obtain ⟨keeper, hset⟩ := r.exists_perform_setSocket_eq pattern status
      exact ⟨_, _, _, _, .setSocket pattern status, hset⟩
  | setSource pattern status =>
      obtain ⟨keeper, hset⟩ := r.exists_perform_setSource_eq pattern status
      exact ⟨_, _, _, _, .setSource pattern status, hset⟩
  | resolve target scope =>
      rw [perform_resolve]
      cases hscope : (r.consulted? scope).bind (·.find? target) with
      | some status =>
          rw [resolve_of_scoped hscope]
          exact ⟨_, _, _, _, .same, rfl⟩
      | none =>
          obtain ⟨keeper, hresolve⟩ := exists_resolve_eq hscope
          exact ⟨_, _, _, _, .resolve target, hresolve⟩
  | load document => exact ⟨_, _, _, _, .enter document, rfl⟩
  | read text =>
      rw [perform]
      cases Json.Format.document.ofText text with
      | ok document => exact ⟨_, _, _, _, .enter document, rfl⟩
      | error defect => exact ⟨_, _, _, _, .same, rfl⟩
  | setPersistent persistent => exact ⟨_, _, _, _, .same, rfl⟩
  | setThreadLocal threadLocal => exact ⟨_, _, _, _, .same, rfl⟩
  | setKeeper answer => exact ⟨_, _, _, _, .same, rfl⟩
  | clear => nomatch hop
  | newScope => nomatch hop
  | dropScope scope => nomatch hop
  | changeScope scope change => nomatch hop

theorem changes_perform (r : Registry) {op : Operation} (hop : op ≠ .clear) :
    r.rules.Changes (r.perform op).1.rules := by
  cases habout : op.aboutScopes with
  | false =>
      obtain ⟨rules, threadLocal, persistent, keeper, hchanges, hperform⟩ :=
        r.exists_perform_eq habout
      rw [hperform]
      exact hchanges
  | true =>
      cases op with
      | newScope => exact .same
      | dropScope scope => exact .same
      | changeScope scope change => exact .same
      | clear => exact absurd rfl hop
      | _ => nomatch habout

-- No pattern is ever listed twice.
theorem distinct_perform {r : Registry} (h : r.rules.Distinct) (op : Operation) :
    (r.perform op).1.rules.Distinct := by
  by_cases hop : op = .clear
  · rw [hop]
    exact .empty
  · exact h.changes (r.changes_perform hop)

theorem distinct_run {r : Registry} (h : r.rules.Distinct) (ops : List Operation) :
    (r.run ops).rules.Distinct := by
  induction ops generalizing r with
  | nil => exact h
  | cons op rest ih => exact ih (distinct_perform h op)

end Registry

end CallWatch.Fault

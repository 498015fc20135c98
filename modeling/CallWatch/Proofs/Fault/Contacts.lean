import CallWatch.Proofs.Fault.Passive

namespace CallWatch.Fault

namespace Rules

variable {π τ : Type} [DecidableEq π]

-- Patterns stay listed in their places. New ones come behind them.
theorem patterns_prefix_set (rules : Rules π) (p : π) (status : Status) :
    rules.patterns <+: (rules.set p status).patterns := by
  rw [patterns_set]
  by_cases h : p ∈ rules.patterns
  · simp [h]
  · simp [h]

theorem patterns_prefix_foldl_set {ε : Type} (pattern : ε → π) (status : ε → Status)
    (entries : List ε) (rules : Rules π) :
    rules.patterns <+:
      patterns (entries.foldl (fun rules e => rules.set (pattern e) (status e)) rules) := by
  induction entries generalizing rules with
  | nil => exact List.prefix_rfl
  | cons e rest ih =>
      have hset := rules.patterns_prefix_set (pattern e) (status e)
      exact hset.trans (ih (rules.set (pattern e) (status e)))

variable [Pattern π τ]

theorem patterns_prefix_resolve (rules : Rules π) (target : τ) :
    rules.patterns <+: (rules.resolve target).2.patterns := by
  cases h : rules.faultFor? target with
  | some status => simp [resolve_of_faultFor? h]
  | none =>
      rw [(resolve_of_faultFor?_eq_none h).2]
      exact rules.patterns_prefix_set _ _

-- What is no fault is listed by itself.
theorem exact_mem_patterns_resolve {rules : Rules π} {target : τ}
    (h : rules.faultFor? target = none) :
    Pattern.exact target ∈ (rules.resolve target).2.patterns := by
  rw [(resolve_of_faultFor?_eq_none h).2, patterns_set]
  by_cases hmem : Pattern.exact target ∈ rules.patterns
  · rwa [if_pos hmem]
  · rw [if_neg hmem]
    simp

theorem exists_accepts_resolve [Pattern.Lawful π] (rules : Rules π) (target : τ) :
    ∃ p ∈ (rules.resolve target).2.patterns, Pattern.accepts p target := by
  cases h : rules.faultFor? target with
  | some status =>
      rw [resolve_of_faultFor? h]
      obtain ⟨r, hfound, -⟩ := Option.map_eq_some_iff.mp h
      have hfault := List.find?_some hfound
      have haccepts : Pattern.accepts r.1 target := (Bool.and_eq_true_iff.mp hfault).2
      exact ⟨r.1, List.mem_map_of_mem (List.mem_of_find?_eq_some hfound), haccepts⟩
  | none =>
      exact ⟨Pattern.exact target, exact_mem_patterns_resolve h,
        Pattern.Lawful.accepts_exact target⟩

end Rules

namespace Table

-- One table lists what another one lists, in its order, and maybe more behind it.
structure Extends (earlier later : Table) : Prop where
  sockets : earlier.sockets.patterns <+: later.sockets.patterns
  sources : earlier.sources.patterns <+: later.sources.patterns

-- Some listed pattern accepts the target.
def Meets (t : Table) : Destination → Prop
  | .socket s => ∃ p ∈ t.sockets.patterns, Pattern.accepts p s
  | .source d => ∃ p ∈ t.sources.patterns, Pattern.accepts p d

namespace Extends

variable {a b : Table}

protected theorem refl (t : Table) : Extends t t :=
  ⟨List.prefix_rfl, List.prefix_rfl⟩

protected theorem trans {c : Table} (h : Extends a b) (hnext : Extends b c) : Extends a c :=
  ⟨h.sockets.trans hnext.sockets, h.sources.trans hnext.sources⟩

theorem of_changes (h : a.Changes b) : Extends a b := by
  cases h with
  | same => exact .refl a
  | setSocket pattern status =>
      exact ⟨a.sockets.patterns_prefix_set pattern status, List.prefix_rfl⟩
  | setSource pattern status =>
      exact ⟨List.prefix_rfl, a.sources.patterns_prefix_set pattern status⟩
  | resolve target =>
      cases target with
      | socket s => exact ⟨a.sockets.patterns_prefix_resolve s, List.prefix_rfl⟩
      | source d => exact ⟨List.prefix_rfl, a.sources.patterns_prefix_resolve d⟩
  | enter document =>
      exact ⟨a.sockets.patterns_prefix_foldl_set SocketEntry.pattern SocketEntry.status
          document.sockets,
        a.sources.patterns_prefix_foldl_set SourceEntry.pattern SourceEntry.status
          document.sources⟩

theorem lists (h : Extends a b) {target : Destination} (hlists : a.Lists target) :
    b.Lists target := by
  cases target with
  | socket s => exact h.sockets.subset hlists
  | source d => exact h.sources.subset hlists

theorem meets (h : Extends a b) {target : Destination} (hmeets : a.Meets target) :
    b.Meets target := by
  cases target with
  | socket s =>
      obtain ⟨p, hp, haccepts⟩ := hmeets
      exact ⟨p, h.sockets.subset hp, haccepts⟩
  | source d =>
      obtain ⟨p, hp, haccepts⟩ := hmeets
      exact ⟨p, h.sources.subset hp, haccepts⟩

end Extends

theorem meets_resolve (t : Table) (target : Destination) : (t.resolve target).2.Meets target := by
  cases target with
  | socket s => exact t.sockets.exists_accepts_resolve s
  | source d => exact t.sources.exists_accepts_resolve d

theorem lists_resolve {t : Table} {target : Destination} (h : t.find? target = none) :
    (t.resolve target).2.Lists target := by
  cases target with
  | socket s => exact Rules.exact_mem_patterns_resolve h
  | source d => exact Rules.exact_mem_patterns_resolve h

theorem find?_ne_opened (t : Table) (target : Destination) : t.find? target ≠ some .opened := by
  cases target with
  | socket s => exact t.sockets.faultFor?_ne_opened s
  | source d => exact t.sources.faultFor?_ne_opened d

end Table

namespace Registry

-- Whether a lookup is up to a scope, which knows a fault of the target.
def answeredByScope (r : Registry) (target : Destination) (scope : Option Nat) : Bool :=
  ((r.consulted? scope).bind (·.find? target)).isSome

theorem meets_resolve {r : Registry} {target : Destination} {scope : Option Nat}
    (h : r.answeredByScope target scope = false) :
    (r.resolve target scope).2.1.rules.Meets target := by
  have hscope : (r.consulted? scope).bind (·.find? target) = none := by
    simpa [answeredByScope] using h
  obtain ⟨keeper, hkeeper⟩ := exists_resolve_eq hscope
  rw [hkeeper]
  exact r.rules.meets_resolve target

-- Neither a scope nor a rule answers that a target is open.
theorem lists_resolve {r : Registry} {target : Destination} {scope : Option Nat}
    (h : (r.resolve target scope).1 = .opened) :
    (r.resolve target scope).2.1.rules.Lists target := by
  cases hscope : (r.consulted? scope).bind (·.find? target) with
  | some status =>
      rw [resolve_of_scoped hscope] at h
      obtain ⟨t, -, hfound⟩ := Option.bind_eq_some_iff.mp hscope
      have hopened : t.find? target = some .opened := hfound.trans (congrArg some h)
      exact absurd hopened (t.find?_ne_opened target)
  | none =>
      rw [status_resolve, hscope, Option.none_or] at h
      have hnone : r.rules.find? target = none := by
        cases hfound : r.rules.find? target with
        | none => rfl
        | some status =>
            have hopened : r.rules.find? target = some .opened := by simpa [hfound] using h
            exact absurd hopened (r.rules.find?_ne_opened target)
      obtain ⟨keeper, hkeeper⟩ := exists_resolve_eq hscope
      rw [hkeeper]
      exact Table.lists_resolve hnone

-- Only to clear the registry takes patterns away.
theorem extends_run (r : Registry) {ops : List Operation} (hops : .clear ∉ ops) :
    r.rules.Extends (r.run ops).rules := by
  induction ops generalizing r with
  | nil => exact .refl r.rules
  | cons op rest ih =>
      obtain ⟨hop, hrest⟩ := not_or.mp (mt List.mem_cons.mpr hops)
      have hstep : r.rules.Extends (r.perform op).1.rules :=
        .of_changes (r.changes_perform (Ne.symm hop))
      exact hstep.trans (ih (r.perform op).1 hrest)

-- As long as it is not cleared again, a registry lists every pattern once, in the order in
-- which they came, and keeps them. Whatever was looked up and not left to a scope is met by
-- one of them, and whatever was found open is listed by itself.
theorem contacts_stay_listed (before : List Operation) {ops : List Operation}
    (hops : .clear ∉ ops) :
    let start := Registry.empty.run before
    let now := start.run ops
    now.rules.Distinct ∧ start.rules.Extends now.rules ∧
      ∀ earlier target scope later, ops = earlier ++ .resolve target scope :: later →
        let asked := start.run earlier
        (asked.answeredByScope target scope = false → now.rules.Meets target) ∧
          ((asked.resolve target scope).1 = .opened → now.rules.Lists target) := by
  intro start now
  have hstart : start.rules.Distinct := distinct_run .empty before
  refine ⟨distinct_run hstart ops, start.extends_run hops, ?_⟩
  intro earlier target scope later hsplit asked
  have hlater : .clear ∉ later := fun hmem => hops (by simp [hsplit, hmem])
  have hnow : now = (asked.resolve target scope).2.1.run later := by
    change start.run ops = _
    rw [hsplit, run_append, run_cons, perform_resolve]
  have hextends : (asked.resolve target scope).2.1.rules.Extends now.rules := by
    rw [hnow]
    exact extends_run _ hlater
  exact ⟨fun hasked => hextends.meets (meets_resolve hasked),
    fun hopened => hextends.lists (lists_resolve hopened)⟩

-- A target found open stays listed although its rule is closed later, by name and by host.
theorem contacts_stay_listed_closed :
    let db : Socket := ⟨"db", 5432, 3, some "10.0.0.7"⟩
    let host : SocketPattern := ⟨some "10.0.0.7", none⟩
    let before : List Operation := [.setSocket host .closed, .clear, .setSocket host (.delay 0)]
    let later : List Operation := [.setSocket host .closed,
      .load ⟨true, [⟨some "db", some 5432, .closed⟩, ⟨some "db", some 5432, .delay 5⟩], []⟩]
    let ops : List Operation := .resolve (.socket db) none :: later
    let now := (Registry.empty.run before).run ops
    .clear ∉ ops ∧ now.rules.Lists (.socket db) ∧
      now.rules.sockets = [(host, .closed), (.exact db, .delay 5)] := by
  intro db host before later ops now
  have hops : .clear ∉ ops := by simp [ops, later]
  have hasked : ((Registry.empty.run before).resolve (.socket db) none).1 = .opened := by decide
  have hlisted := (contacts_stay_listed before hops).2.2 [] (.socket db) none later rfl
  exact ⟨hops, hlisted.2 hasked, by decide⟩

end Registry

end CallWatch.Fault

import CallWatch.Proofs.Fault.Operations
import Mathlib.Data.List.Forall2
import Mathlib.Data.List.Induction

namespace CallWatch.Fault

namespace Rules

variable {π τ : Type} [Pattern π τ]

-- What rules say of a target: the status of the first rule that accepts it and does
-- something to it, or open if there is no such rule.
inductive Answers (rules : Rules π) (target : τ) : Status → Prop where
  | fault {before after : Rules π} {pattern : π} {status : Status}
      (split : rules = before ++ (pattern, status) :: after)
      (accepts : Pattern.accepts pattern target)
      (notOpened : status ≠ .opened)
      (notZero : status ≠ .delay 0)
      (first : ∀ r ∈ before, Pattern.accepts r.1 target → r.2 = .opened ∨ r.2 = .delay 0) :
      Answers rules target status
  | opened
      (none : ∀ r ∈ rules, Pattern.accepts r.1 target → r.2 = .opened ∨ r.2 = .delay 0) :
      Answers rules target .opened

theorem answers_faultFor? (rules : Rules π) (target : τ) :
    rules.Answers target ((rules.faultFor? target).getD .opened) := by
  cases h : rules.faultFor? target with
  | none =>
      exact .opened fun r hr haccepts =>
        Status.isOpen_iff.mp (faultFor?_eq_none_iff.mp h r hr haccepts)
  | some status =>
      obtain ⟨⟨pattern, s⟩, hfound, rfl⟩ := Option.map_eq_some_iff.mp h
      obtain ⟨hfault, before, after, hsplit, hfirst⟩ := List.find?_eq_some_iff_append.mp hfound
      obtain ⟨hopen, haccepts⟩ := Bool.and_eq_true_iff.mp hfault
      have hnot : ¬(s = .opened ∨ s = .delay 0) := fun hs => by
        simp [Status.isOpen_iff.mpr hs] at hopen
      refine .fault hsplit haccepts (fun hs => hnot (.inl hs)) (fun hs => hnot (.inr hs))
        fun r hr hraccepts => Status.isOpen_iff.mp ?_
      simpa [hraccepts] using hfirst r hr

-- There is one answer for each target.
theorem Answers.eq {rules : Rules π} {target : τ} {status : Status}
    (h : rules.Answers target status) : (rules.faultFor? target).getD .opened = status := by
  cases h with
  | opened hnone =>
      rw [faultFor?_eq_none_iff.mpr fun r hr haccepts =>
        Status.isOpen_iff.mpr (hnone r hr haccepts)]
      rfl
  | @fault before after pattern _ hsplit haccepts hopened hzero hfirst =>
      have hopen : status.isOpen = false := by
        rw [Bool.eq_false_iff]
        exact fun hs => (Status.isOpen_iff.mp hs).elim hopened hzero
      have hbefore : before.find? (fun r => !r.2.isOpen && Pattern.accepts r.1 target) = none := by
        rw [List.find?_eq_none]
        intro r hr hfault
        obtain ⟨hnot, hraccepts⟩ := Bool.and_eq_true_iff.mp hfault
        simp [Status.isOpen_iff.mpr (hfirst r hr hraccepts)] at hnot
      rw [faultFor?, hsplit, List.find?_append, hbefore, Option.none_or,
        List.find?_cons_of_pos (by simp [hopen, haccepts])]
      rfl

-- The exact patterns of the targets that are open, in the order in which they came.
def found (rules : Rules π) (targets : List τ) : List π :=
  (targets.filter fun target => (rules.faultFor? target).isNone).map Pattern.exact

theorem found_append (rules : Rules π) (a b : List τ) :
    rules.found (a ++ b) = rules.found a ++ rules.found b := by
  rw [found, List.filter_append, List.map_append]
  rfl

theorem found_singleton_of_fault {rules : Rules π} {target : τ} {status : Status}
    (h : rules.faultFor? target = some status) : rules.found [target] = [] := by
  simp [found, h]

theorem found_singleton {rules : Rules π} {target : τ} (h : rules.faultFor? target = none) :
    rules.found [target] = [Pattern.exact target] := by
  simp [found, h]

theorem mem_found {rules : Rules π} {targets : List τ} {target : τ} (ht : target ∈ targets)
    (h : rules.faultFor? target = none) : Pattern.exact target ∈ rules.found targets :=
  List.mem_map_of_mem (List.mem_filter.mpr ⟨ht, by simp [h]⟩)

variable [DecidableEq π]

-- A rule without effect that names exactly such a target is written anew as open.
def reopen (found : List π) (r : π × Status) : π × Status :=
  if r.2 = .delay 0 ∧ r.1 ∈ found then (r.1, .opened) else r

def unlisted (rules : Rules π) (found : List π) : List π :=
  (found.filter (· ∉ rules.patterns)).eraseDups

-- What becomes of rules when targets are looked up.
def discovered (rules : Rules π) (targets : List τ) : Rules π :=
  rules.map (reopen (rules.found targets)) ++
    (rules.unlisted (rules.found targets)).map fun pattern => (pattern, .opened)

@[simp]
theorem fst_reopen (found : List π) (r : π × Status) : (reopen found r).1 = r.1 := by
  rw [reopen]
  split <;> rfl

@[simp]
theorem isOpen_reopen (found : List π) (r : π × Status) :
    (reopen found r).2.isOpen = r.2.isOpen := by
  rw [reopen]
  split
  · rename_i h
    rw [h.1]
    rfl
  · rfl

theorem reopen_of_not_isOpen (found : List π) {r : π × Status} (h : r.2.isOpen = false) :
    reopen found r = r := by
  rw [reopen, if_neg]
  rintro ⟨hzero, -⟩
  simp [hzero, Status.isOpen] at h

theorem reopen_of_mem {found : List π} {r : π × Status} (hopen : r.2.isOpen)
    (h : r.1 ∈ found) : reopen found r = (r.1, .opened) := by
  rw [reopen]
  split
  · rfl
  · rename_i hnot
    obtain hopened | hzero := Status.isOpen_iff.mp hopen
    · rw [← hopened]
    · exact absurd ⟨hzero, h⟩ hnot

theorem reopen_congr {found found' : List π} {r : π × Status} (h : r.1 ∈ found ↔ r.1 ∈ found') :
    reopen found r = reopen found' r := by
  simp only [reopen, h]

@[simp]
theorem patterns_map_reopen (found : List π) (rules : Rules π) :
    patterns (rules.map (reopen found)) = rules.patterns := by
  rw [patterns, List.map_map]
  exact List.map_congr_left fun r _ => fst_reopen found r

@[simp]
theorem faults_map_reopen (found : List π) (rules : Rules π) :
    faults (rules.map (reopen found)) = rules.faults := by
  rw [faults, List.filter_map]
  have hsame : (fun r : π × Status => !r.2.isOpen) ∘ reopen found = fun r => !r.2.isOpen :=
    funext fun r => by simp
  rw [hsame]
  refine (List.map_congr_left fun r hr => ?_).trans (List.map_id _)
  exact reopen_of_not_isOpen found (by simpa using (List.mem_filter.mp hr).2)

@[simp]
theorem discovered_nil (rules : Rules π) : rules.discovered ([] : List τ) = rules := by
  have hreopen : reopen ([] : List π) = id := funext fun r => by simp [reopen]
  simp [discovered, found, unlisted, hreopen]

theorem faults_discovered (rules : Rules π) (targets : List τ) :
    (rules.discovered targets).faults = rules.faults := by
  rw [discovered, faults_append, faults_map_reopen]
  simp [faults]

theorem faultFor?_discovered (rules : Rules π) (targets : List τ) (target : τ) :
    (rules.discovered targets).faultFor? target = rules.faultFor? target :=
  faultFor?_congr (rules.faults_discovered targets) target

-- One more pattern is found. It is listed already, or it is new.
theorem map_reopen_concat_of_mem {rules : Rules π} (hd : rules.Distinct) {p : π}
    (hp : p ∈ rules.patterns) (hopen : ∀ r ∈ rules, r.1 = p → r.2.isOpen) (found : List π) :
    rules.map (reopen (found ++ [p])) = set p .opened (rules.map (reopen found)) := by
  have hdistinct : Distinct (rules.map (reopen found)) := by
    rwa [Distinct, patterns_map_reopen]
  rw [set_eq_map hdistinct (by rwa [patterns_map_reopen]), List.map_map]
  refine List.map_congr_left fun r hr => ?_
  rw [Function.comp_apply, fst_reopen]
  by_cases hrp : r.1 = p
  · rw [reopen_of_mem (hopen r hr hrp) (by simp [hrp]), if_pos hrp]
  · have hsame : reopen (found ++ [p]) r = reopen found r := reopen_congr (by simp [hrp])
    rw [hsame, if_neg hrp, ← fst_reopen found r]

theorem map_reopen_concat_of_not_mem {rules : Rules π} {p : π} (hp : p ∉ rules.patterns)
    (found : List π) : rules.map (reopen (found ++ [p])) = rules.map (reopen found) := by
  refine List.map_congr_left fun r hr => reopen_congr ?_
  have hne : r.1 ≠ p := fun h => hp (h ▸ List.mem_map_of_mem hr)
  simp [hne]

theorem unlisted_concat_of_mem {rules : Rules π} {p : π} (hp : p ∈ rules.patterns)
    (found : List π) : rules.unlisted (found ++ [p]) = rules.unlisted found := by
  simp [unlisted, hp]

theorem unlisted_concat_of_not_mem {rules : Rules π} {p : π} (hp : p ∉ rules.patterns)
    (found : List π) :
    rules.unlisted (found ++ [p]) =
      if p ∈ rules.unlisted found then rules.unlisted found else rules.unlisted found ++ [p] := by
  have hfilter : (found ++ [p]).filter (· ∉ rules.patterns) =
      found.filter (· ∉ rules.patterns) ++ [p] := by
    simp [hp]
  have hmem : p ∈ rules.unlisted found ↔ p ∈ found.filter (· ∉ rules.patterns) :=
    List.mem_eraseDups
  rw [unlisted, hfilter, List.eraseDups_append]
  split
  · rename_i hold
    have hnone : [p].removeAll (found.filter (· ∉ rules.patterns)) = [] :=
      List.filter_eq_nil_iff.mpr fun q hq => by
        rw [List.mem_singleton.mp hq]
        simpa using hmem.mp hold
    rw [hnone, List.eraseDups_nil, List.append_nil, unlisted]
  · rename_i hnew
    have hone : [p].removeAll (found.filter (· ∉ rules.patterns)) = [p] :=
      List.filter_eq_self.mpr fun q hq => by
        rw [List.mem_singleton.mp hq, Bool.not_eq_true', ← Bool.not_eq_true, List.elem_iff]
        exact mt hmem.mpr hnew
    rw [hone, List.eraseDups_cons, List.filter_nil, List.eraseDups_nil, unlisted]

theorem discovered_concat_of_fault {rules : Rules π} {target : τ} {status : Status}
    (h : rules.faultFor? target = some status) (targets : List τ) :
    rules.discovered (targets ++ [target]) = rules.discovered targets := by
  rw [discovered, found_append, found_singleton_of_fault h, List.append_nil, discovered]

theorem status?_map_opened {patterns : List π} {p : π} (h : p ∈ patterns) :
    status? (patterns.map fun pattern => (pattern, .opened)) p = some .opened := by
  cases hs : status? (patterns.map fun pattern => (pattern, .opened)) p with
  | none =>
      rw [status?_eq_none_iff, Rules.patterns, List.map_map] at hs
      exact absurd (List.mem_map.mpr ⟨p, h, rfl⟩) hs
  | some status =>
      obtain ⟨q, -, hq⟩ := List.mem_map.mp (mem_of_status? hs)
      rw [← (Prod.mk.inj hq).2]

-- A target that was looked up before is known.
theorem discovered_concat_of_mem {rules : Rules π} {targets : List τ} {target : τ}
    (h : target ∈ targets) : rules.discovered (targets ++ [target]) = rules.discovered targets := by
  cases hfault : rules.faultFor? target with
  | some status => exact discovered_concat_of_fault hfault targets
  | none =>
      have hmem := mem_found h hfault
      have hsame : ∀ r : π × Status,
          reopen (rules.found targets ++ [Pattern.exact target]) r =
            reopen (rules.found targets) r := fun r => reopen_congr <| by
        rw [List.mem_append, List.mem_singleton]
        exact or_iff_left_of_imp fun hr => hr ▸ hmem
      rw [discovered, found_append, found_singleton hfault, discovered,
        List.map_congr_left fun r _ => hsame r]
      by_cases hp : Pattern.exact target ∈ rules.patterns
      · rw [unlisted_concat_of_mem hp]
      · rw [unlisted_concat_of_not_mem hp, if_pos]
        exact List.mem_eraseDups.mpr (List.mem_filter.mpr ⟨hmem, by simpa using hp⟩)

variable [Pattern.Lawful π]

theorem discovered_concat {rules : Rules π} (hd : rules.Distinct) {target : τ}
    (h : rules.faultFor? target = none) (targets : List τ) :
    rules.discovered (targets ++ [target]) =
      (rules.discovered targets).set (Pattern.exact target) .opened := by
  rw [discovered, found_append, found_singleton h, discovered]
  by_cases hp : Pattern.exact target ∈ rules.patterns
  · have hmem : Pattern.exact target ∈ patterns (rules.map (reopen (rules.found targets))) := by
      rwa [patterns_map_reopen]
    rw [unlisted_concat_of_mem hp, set_append_of_mem hmem,
      map_reopen_concat_of_mem hd hp fun r hr hexact => isOpen_of_exact h hr hexact]
  · have hnot : Pattern.exact target ∉ patterns (rules.map (reopen (rules.found targets))) := by
      rwa [patterns_map_reopen]
    rw [set_append_of_not_mem hnot, map_reopen_concat_of_not_mem hp,
      unlisted_concat_of_not_mem hp]
    split
    · rename_i hmem
      rw [set_eq_self (status?_map_opened hmem)]
    · rename_i hmem
      rw [set_of_not_mem (by simpa [patterns] using hmem), List.map_append]
      rfl

theorem resolve_discovered {rules : Rules π} (hd : rules.Distinct) (targets : List τ)
    (target : τ) :
    ((rules.discovered targets).resolve target).1.status =
        (rules.faultFor? target).getD .opened ∧
      ((rules.discovered targets).resolve target).2 = rules.discovered (targets ++ [target]) := by
  rw [status_resolve, faultFor?_discovered]
  refine ⟨rfl, ?_⟩
  cases h : rules.faultFor? target with
  | some status =>
      rw [discovered_concat_of_fault h,
        resolve_of_faultFor? ((faultFor?_discovered rules targets target).trans h)]
  | none =>
      rw [discovered_concat hd h,
        (resolve_of_faultFor?_eq_none ((faultFor?_discovered rules targets target).trans h)).2]

theorem resolve_discovered_of_mem {rules : Rules π} (hd : rules.Distinct) {targets : List τ}
    {target : τ} (ht : target ∈ targets) :
    ∃ resolution, resolution ≠ .registered ∧
      (rules.discovered targets).resolve target = (resolution, rules.discovered targets) := by
  cases h : rules.faultFor? target with
  | some status =>
      exact ⟨.matched status, by simp,
        resolve_of_faultFor? ((faultFor?_discovered rules targets target).trans h)⟩
  | none =>
      have hopened :
          (rules.discovered targets).status? (Pattern.exact target) = some .opened := by
        rw [← discovered_concat_of_mem ht, discovered_concat hd h, status?_set, if_pos rfl]
      refine ⟨.known, by simp, ?_⟩
      rw [resolve, faultFor?_discovered, h]
      exact if_pos hopened

end Rules

namespace Destination

def socket? : Destination → Option Socket
  | .socket s => some s
  | .source _ => none

def source? : Destination → Option DataSource
  | .socket _ => none
  | .source d => some d

end Destination

namespace Table

def Answers (t : Table) : Destination → Status → Prop
  | .socket s, status => t.sockets.Answers s status
  | .source d, status => t.sources.Answers d status

def discovered (t : Table) (targets : List Destination) : Table where
  sockets := t.sockets.discovered (targets.filterMap Destination.socket?)
  sources := t.sources.discovered (targets.filterMap Destination.source?)

theorem answers_find? (t : Table) (target : Destination) :
    t.Answers target ((t.find? target).getD .opened) := by
  cases target with
  | socket s => exact t.sockets.answers_faultFor? s
  | source d => exact t.sources.answers_faultFor? d

@[simp]
theorem discovered_nil (t : Table) : t.discovered [] = t := by
  simp [discovered]

theorem resolve_discovered {t : Table} (hd : t.Distinct) (targets : List Destination)
    (target : Destination) :
    ((t.discovered targets).resolve target).1.status = (t.find? target).getD .opened ∧
      ((t.discovered targets).resolve target).2 = t.discovered (targets ++ [target]) := by
  cases target with
  | socket s =>
      obtain ⟨hstatus, hrules⟩ :=
        Rules.resolve_discovered hd.1 (targets.filterMap Destination.socket?) s
      refine ⟨hstatus, ?_⟩
      rw [discovered, resolve, hrules, discovered, List.filterMap_append, List.filterMap_append,
        show [Destination.socket s].filterMap Destination.source? = [] from rfl, List.append_nil]
      rfl
  | source d =>
      obtain ⟨hstatus, hrules⟩ :=
        Rules.resolve_discovered hd.2 (targets.filterMap Destination.source?) d
      refine ⟨hstatus, ?_⟩
      rw [discovered, resolve, hrules, discovered, List.filterMap_append, List.filterMap_append,
        show [Destination.source d].filterMap Destination.socket? = [] from rfl, List.append_nil]
      rfl

theorem resolve_discovered_of_mem {t : Table} (hd : t.Distinct) {targets : List Destination}
    {target : Destination} (ht : target ∈ targets) :
    ∃ resolution, resolution ≠ .registered ∧
      (t.discovered targets).resolve target = (resolution, t.discovered targets) := by
  cases target with
  | socket s =>
      obtain ⟨resolution, hknown, hrules⟩ := Rules.resolve_discovered_of_mem hd.1
        (List.mem_filterMap.mpr ⟨.socket s, ht, rfl⟩ : s ∈ targets.filterMap Destination.socket?)
      refine ⟨resolution, hknown, ?_⟩
      rw [resolve, discovered, hrules]
  | source d =>
      obtain ⟨resolution, hknown, hrules⟩ := Rules.resolve_discovered_of_mem hd.2
        (List.mem_filterMap.mpr ⟨.source d, ht, rfl⟩ : d ∈ targets.filterMap Destination.source?)
      refine ⟨resolution, hknown, ?_⟩
      rw [resolve, discovered, hrules]

end Table

namespace Registry

-- Targets looked up one after the other, without a scope.
def lookups (targets : List Destination) : List Operation :=
  targets.map fun target => .resolve target none

theorem rules_run_lookups {r : Registry} (hd : r.rules.Distinct) (targets : List Destination) :
    (r.run (lookups targets)).rules = r.rules.discovered targets := by
  induction targets using List.reverseRecOn with
  | nil => rw [Table.discovered_nil, lookups, List.map_nil, run_nil]
  | append_singleton targets target ih =>
      have hscope : (((r.run (lookups targets)).consulted? none).bind
          (·.find? target)) = none := by
        rw [consulted?_none, Option.bind_none]
      obtain ⟨keeper, hresolve⟩ := exists_resolve_eq hscope
      rw [lookups, List.map_append, ← lookups, run_append, List.map_singleton, run_cons, run_nil,
        perform_resolve, hresolve]
      change ((r.run (lookups targets)).rules.resolve target).2 = _
      rw [ih, (Table.resolve_discovered hd targets target).2]

theorem answers_lookups {r : Registry} (hd : r.rules.Distinct) (targets : List Destination) :
    r.answers (lookups targets) =
      targets.map fun target => .status ((r.rules.find? target).getD .opened) := by
  induction targets using List.reverseRecOn with
  | nil => rfl
  | append_singleton targets target ih =>
      have hstatus : ((r.run (lookups targets)).resolve target none).1 =
          (r.rules.find? target).getD .opened := by
        rw [status_resolve, consulted?_none, Option.bind_none, Option.none_or,
          ← Table.status_resolve, rules_run_lookups hd,
          (Table.resolve_discovered hd targets target).1]
      rw [lookups, List.map_append, ← lookups, answers_append, ih, List.map_append,
        List.map_singleton, List.map_singleton, answers, answers, perform_resolve, hstatus]

-- A registry that knows some targets stays as it is when they are looked up again.
theorem run_lookups_of_subset {r : Registry} {t : Table} (hd : t.Distinct)
    {targets : List Destination} (hr : r.rules = t.discovered targets)
    {again : List Destination} (h : again ⊆ targets) : r.run (lookups again) = r := by
  induction again with
  | nil => rfl
  | cons target rest ih =>
      obtain ⟨hmem, hrest⟩ := List.cons_subset.mp h
      obtain ⟨resolution, hknown, hresolve⟩ := Table.resolve_discovered_of_mem hd hmem
      rw [← hr] at hresolve
      rw [lookups, List.map_cons, run_cons, perform_resolve, resolve_eq_self hresolve hknown]
      exact ih hrest

-- Lookups answer from the rules as they were at first, in whatever order and however
-- often the targets come, and each leaves the rules of all open targets listed.
theorem lookups_discover (r : Registry) (hd : r.rules.Distinct) (targets : List Destination) :
    (∃ statuses, r.answers (lookups targets) = statuses.map .status ∧
        List.Forall₂ r.rules.Answers targets statuses) ∧
      (r.run (lookups targets)).rules = r.rules.discovered targets ∧
      ∀ again ⊆ targets,
        (r.run (lookups targets)).run (lookups again) = r.run (lookups targets) := by
  refine ⟨⟨targets.map fun target => (r.rules.find? target).getD .opened, ?_, ?_⟩,
    rules_run_lookups hd targets, fun again h =>
      run_lookups_of_subset hd (rules_run_lookups hd targets) h⟩
  · rw [answers_lookups hd, List.map_map]
    rfl
  · exact List.forall₂_map_right_iff.mpr
      (List.forall₂_same.mpr fun target _ => r.rules.answers_find? target)

-- A delay of nothing under the exact pattern is written anew as open, one under the name
-- of the host stays, and a new target comes last, once.
theorem lookups_discover_zero_delay :
    let db : Socket := ⟨"db", 5432, -1, none⟩
    let cache : Socket := ⟨"cache", 6379, 3, some "10.0.0.7"⟩
    let rules : Table :=
      ⟨[(⟨some "db", none⟩, .delay 0), (.exact db, .delay 0), (⟨some "gone", none⟩, .closed)], []⟩
    let targets : List Destination := [.socket cache, .socket db, .socket cache]
    rules.Distinct ∧
      (({ Registry.empty with rules } : Registry).run (lookups targets)).rules =
        ⟨[(⟨some "db", none⟩, .delay 0), (.exact db, .opened), (⟨some "gone", none⟩, .closed),
          (.exact cache, .opened)], []⟩ := by
  intro db cache rules targets
  have hd : rules.Distinct := by
    unfold Table.Distinct Rules.Distinct
    decide
  exact ⟨hd, (lookups_discover { Registry.empty with rules } hd targets).2.1.trans (by decide)⟩

end Registry

end CallWatch.Fault

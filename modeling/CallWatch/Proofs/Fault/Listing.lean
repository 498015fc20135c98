import CallWatch.Fault.Rules

namespace CallWatch.Fault

-- The pattern that names exactly a target accepts it.
class Pattern.Lawful (π : Type) {τ : outParam Type} [Pattern π τ] : Prop where
  accepts_exact : ∀ target : τ, Pattern.accepts (Pattern.exact target : π) target = true

instance : Pattern.Lawful SocketPattern where
  accepts_exact s := by simp [Pattern.accepts, Pattern.exact, SocketPattern.accepts,
    SocketPattern.exact, Socket.isHost]

instance : Pattern.Lawful SourcePattern where
  accepts_exact d := by simp [Pattern.accepts, Pattern.exact, SourcePattern.accepts,
    SourcePattern.exact]

@[simp]
theorem Status.isOpen_opened : Status.opened.isOpen = true := rfl

theorem Status.isOpen_iff {s : Status} : s.isOpen ↔ s = .opened ∨ s = .delay 0 := by
  cases s with
  | opened => simp
  | closed => simp [isOpen]
  | delay millis => simp [isOpen]

namespace Rules

variable {π τ : Type}

-- What is listed, in the order in which it came.
def patterns (rules : Rules π) : List π :=
  rules.map (·.1)

def Distinct (rules : Rules π) : Prop :=
  rules.patterns.Nodup

-- The rules that inject a fault.
def faults (rules : Rules π) : Rules π :=
  rules.filter fun r => !r.2.isOpen

@[simp]
theorem patterns_append (a b : Rules π) : patterns (a ++ b) = a.patterns ++ b.patterns :=
  List.map_append

@[simp]
theorem faults_append (a b : Rules π) : faults (a ++ b) = a.faults ++ b.faults :=
  List.filter_append _ _

theorem faults_singleton_of_isOpen {status : Status} (h : status.isOpen) (p : π) :
    faults [(p, status)] = [] := by
  simp [faults, h]

variable [Pattern π τ]

theorem faultFor?_eq (rules : Rules π) (target : τ) :
    rules.faultFor? target =
      (rules.faults.find? fun r => Pattern.accepts r.1 target).map (·.2) := by
  rw [faultFor?, faults, List.find?_filter]
  congr 2
  funext r
  rw [Bool.decide_and, Bool.decide_eq_true, Bool.decide_eq_true]

theorem faultFor?_congr {a b : Rules π} (h : a.faults = b.faults) (target : τ) :
    a.faultFor? target = b.faultFor? target := by
  rw [faultFor?_eq, faultFor?_eq, h]

theorem faultFor?_eq_none_iff {rules : Rules π} {target : τ} :
    rules.faultFor? target = none ↔ ∀ r ∈ rules, Pattern.accepts r.1 target → r.2.isOpen := by
  rw [faultFor?, Option.map_eq_none_iff, List.find?_eq_none]
  refine forall₂_congr fun r _ => ?_
  cases r.2.isOpen <;> simp

-- What is found is a fault.
theorem isOpen_of_faultFor? {rules : Rules π} {target : τ} {status : Status}
    (h : rules.faultFor? target = some status) : status.isOpen = false := by
  obtain ⟨r, hfound, rfl⟩ := Option.map_eq_some_iff.mp h
  have hfault := List.find?_some hfound
  simp_all

theorem faultFor?_ne_opened (rules : Rules π) (target : τ) :
    rules.faultFor? target ≠ some .opened := by
  intro h
  have hfault := isOpen_of_faultFor? h
  simp at hfault

theorem faultFor?_append (a b : Rules π) (target : τ) :
    faultFor? (a ++ b) target = (a.faultFor? target).or (b.faultFor? target) := by
  rw [faultFor?, faultFor?, faultFor?, List.find?_append, Option.map_or]

-- A target that no fault holds has no fault under its exact pattern.
theorem isOpen_of_exact [Pattern.Lawful π] {rules : Rules π} {target : τ}
    (h : rules.faultFor? target = none) {r : π × Status} (hr : r ∈ rules)
    (hexact : r.1 = Pattern.exact target) : r.2.isOpen := by
  refine faultFor?_eq_none_iff.mp h r hr ?_
  rw [hexact]
  exact Pattern.Lawful.accepts_exact target

variable [DecidableEq π]

theorem status?_eq_none_iff {rules : Rules π} {p : π} :
    rules.status? p = none ↔ p ∉ rules.patterns := by
  rw [status?, Option.map_eq_none_iff, List.find?_eq_none, patterns, List.mem_map]
  constructor
  · rintro h ⟨r, hr, hp⟩
    exact h r hr (decide_eq_true hp)
  · exact fun h r hr hp => h ⟨r, hr, of_decide_eq_true hp⟩

theorem mem_of_status? {rules : Rules π} {p : π} {status : Status}
    (h : rules.status? p = some status) : (p, status) ∈ rules := by
  obtain ⟨r, hr, rfl⟩ := Option.map_eq_some_iff.mp h
  have hp : r.1 = p := by simpa using List.find?_some hr
  rw [← hp]
  exact List.mem_of_find?_eq_some hr

-- A pattern has its first rule set, in its place. One that is not listed comes last.
theorem set_of_not_mem {rules : Rules π} {p : π} (h : p ∉ rules.patterns) (status : Status) :
    rules.set p status = rules ++ [(p, status)] := by
  induction rules with
  | nil => rfl
  | cons r rest ih =>
      obtain ⟨hne, hrest⟩ := not_or.mp (mt List.mem_cons.mpr h)
      rw [set, if_neg (Ne.symm hne), ih hrest, List.cons_append]

theorem exists_set_of_mem {rules : Rules π} {p : π} (h : p ∈ rules.patterns) (status : Status) :
    ∃ before old after, rules = before ++ (p, old) :: after ∧ rules.status? p = some old ∧
      rules.set p status = before ++ (p, status) :: after := by
  induction rules with
  | nil => cases h
  | cons r rest ih =>
      obtain ⟨q, s⟩ := r
      by_cases hq : q = p
      · subst hq
        exact ⟨[], s, rest, rfl, by simp [status?], by simp [set]⟩
      · have hrest : p ∈ patterns rest := (List.mem_cons.mp h).resolve_left (Ne.symm hq)
        obtain ⟨before, old, after, hrules, hold, hset⟩ := ih hrest
        refine ⟨(q, s) :: before, old, after, ?_, ?_, ?_⟩
        · rw [hrules, List.cons_append]
        · rw [← hold]
          simp [status?, hq]
        · rw [set, if_neg hq, hset, List.cons_append]

theorem set_append_of_mem {a : Rules π} {p : π} (h : p ∈ a.patterns) (status : Status)
    (b : Rules π) : set p status (a ++ b) = a.set p status ++ b := by
  induction a with
  | nil => cases h
  | cons r rest ih =>
      by_cases hr : r.1 = p
      · simp only [List.cons_append, set, if_pos hr]
      · have hrest : p ∈ patterns rest := (List.mem_cons.mp h).resolve_left (Ne.symm hr)
        simp only [List.cons_append, set, if_neg hr, ih hrest]

theorem set_append_of_not_mem {a : Rules π} {p : π} (h : p ∉ a.patterns) (status : Status)
    (b : Rules π) : set p status (a ++ b) = a ++ b.set p status := by
  induction a with
  | nil => rfl
  | cons r rest ih =>
      obtain ⟨hne, hrest⟩ := not_or.mp (mt List.mem_cons.mpr h)
      rw [List.cons_append, set, if_neg (Ne.symm hne), ih hrest, List.cons_append]

theorem set_eq_self {rules : Rules π} {p : π} {status : Status}
    (h : rules.status? p = some status) : rules.set p status = rules := by
  have hmem : p ∈ rules.patterns := List.mem_map_of_mem (mem_of_status? h)
  obtain ⟨before, old, after, hrules, hold, hset⟩ := exists_set_of_mem hmem status
  rw [hold] at h
  rw [hset, ← Option.some.inj h, ← hrules]

theorem patterns_set (rules : Rules π) (p : π) (status : Status) :
    (rules.set p status).patterns =
      if p ∈ rules.patterns then rules.patterns else rules.patterns ++ [p] := by
  split
  · rename_i h
    obtain ⟨before, old, after, hrules, -, hset⟩ := exists_set_of_mem h status
    rw [hset, hrules]
    simp [patterns]
  · rename_i h
    rw [set_of_not_mem h, patterns_append]
    rfl

theorem Distinct.set {rules : Rules π} (h : rules.Distinct) (p : π) (status : Status) :
    (rules.set p status).Distinct := by
  rw [Distinct, patterns_set]
  split
  · exact h
  · rename_i hp
    refine List.nodup_append.mpr ⟨h, by simp, fun q hq r hr heq => hp ?_⟩
    rw [← List.mem_singleton.mp hr, ← heq]
    exact hq

theorem Distinct.foldl_set {ε : Type} (pattern : ε → π) (status : ε → Status)
    (entries : List ε) {rules : Rules π} (h : rules.Distinct) :
    Distinct (entries.foldl (fun rules e => rules.set (pattern e) (status e)) rules) := by
  induction entries generalizing rules with
  | nil => exact h
  | cons e rest ih => exact ih (h.set (pattern e) (status e))

-- Only one rule is about the pattern if no pattern is listed twice.
theorem set_eq_map {rules : Rules π} (hd : rules.Distinct) {p : π} (h : p ∈ rules.patterns)
    (status : Status) :
    rules.set p status = rules.map fun r => (r.1, if r.1 = p then status else r.2) := by
  induction rules with
  | nil => cases h
  | cons r rest ih =>
      obtain ⟨hnew, hrest⟩ := List.nodup_cons.mp hd
      by_cases hr : r.1 = p
      · have hothers : (rest.map fun r => (r.1, if r.1 = p then status else r.2)) = rest := by
          refine (List.map_congr_left fun q hq => ?_).trans (List.map_id rest)
          have hne : q.1 ≠ p := fun he => hnew (List.mem_map.mpr ⟨q, hq, he.trans hr.symm⟩)
          rw [if_neg hne]
          rfl
        rw [set, if_pos hr, List.map_cons, if_pos hr, hothers]
      · have hmem : p ∈ patterns rest := (List.mem_cons.mp h).resolve_left (Ne.symm hr)
        rw [set, if_neg hr, ih hrest hmem, List.map_cons, if_neg hr]

-- To change how a rule is open injects no fault and takes none away.
theorem faults_set {rules : Rules π} {p : π} (hold : ∀ old, rules.status? p = some old → old.isOpen)
    {status : Status} (hstatus : status.isOpen) : (rules.set p status).faults = rules.faults := by
  by_cases h : p ∈ rules.patterns
  · obtain ⟨before, old, after, hrules, hfound, hset⟩ := exists_set_of_mem h status
    have hopen := hold old hfound
    rw [hset, hrules]
    simp [faults, hstatus, hopen]
  · rw [set_of_not_mem h, faults_append, faults_singleton_of_isOpen hstatus, List.append_nil]

theorem resolve_of_faultFor? {rules : Rules π} {target : τ} {status : Status}
    (h : rules.faultFor? target = some status) :
    rules.resolve target = (.matched status, rules) := by
  rw [resolve, h]

theorem resolve_of_faultFor?_eq_none {rules : Rules π} {target : τ}
    (h : rules.faultFor? target = none) :
    (rules.resolve target).1.status = .opened ∧
      (rules.resolve target).2 = rules.set (Pattern.exact target) .opened := by
  rw [resolve, h]
  dsimp only
  split
  · rename_i hknown
    exact ⟨rfl, (set_eq_self hknown).symm⟩
  · exact ⟨rfl, rfl⟩

theorem status_resolve (rules : Rules π) (target : τ) :
    (rules.resolve target).1.status = (rules.faultFor? target).getD .opened := by
  cases h : rules.faultFor? target with
  | some status =>
      rw [resolve_of_faultFor? h]
      rfl
  | none => exact (resolve_of_faultFor?_eq_none h).1

theorem Distinct.resolve {rules : Rules π} (h : rules.Distinct) (target : τ) :
    Distinct (rules.resolve target).2 := by
  cases hfault : rules.faultFor? target with
  | some status => rwa [resolve_of_faultFor? hfault]
  | none =>
      rw [(resolve_of_faultFor?_eq_none hfault).2]
      exact h.set _ _

-- Looking a target up never changes which faults there are.
theorem faults_resolve [Pattern.Lawful π] (rules : Rules π) (target : τ) :
    (rules.resolve target).2.faults = rules.faults := by
  cases h : rules.faultFor? target with
  | some status => rw [resolve_of_faultFor? h]
  | none =>
      rw [(resolve_of_faultFor?_eq_none h).2]
      exact faults_set (fun old hold => isOpen_of_exact h (mem_of_status? hold) rfl) rfl

end Rules

end CallWatch.Fault

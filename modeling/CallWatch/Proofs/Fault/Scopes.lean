import CallWatch.Proofs.Fault.Apart

namespace CallWatch.Fault

namespace Operation

-- What becomes of the table of a scope that stays held.
def onScope (scope : Nat) : Operation → Table → Table
  | .changeScope changed change, t => if changed = scope then change t else t
  | .clear, _ => .empty
  | _, t => t

theorem onScope_of_not_about {op : Operation} (h : op.aboutScopes = false) (scope : Nat)
    (t : Table) : op.onScope scope t = t := by
  cases op with
  | newScope => nomatch h
  | dropScope dropped => nomatch h
  | changeScope changed change => nomatch h
  | clear => nomatch h
  | _ => rfl

end Operation

namespace Table

-- What a run makes of the table of a scope that stays held.
def after (t : Table) (scope : Nat) (ops : List Operation) : Table :=
  ops.foldl (fun t op => op.onScope scope t) t

end Table

namespace Registry

theorem isHeld_iff {r : Registry} {scope : Nat} :
    r.isHeld scope ↔ ∃ t, r.scope? scope = some t := by
  rw [isHeld, ← List.isSome_find?, ← Option.isSome_iff_exists, scope?, Option.isSome_map]

theorem scope?_newScope (r : Registry) (scope : Nat) :
    r.newScope.1.scope? scope =
      (r.scope? scope).or (if r.nextScope = scope then some .empty else none) := by
  rw [scope?, newScope, List.find?_append, Option.map_or, ← scope?]
  by_cases hnext : r.nextScope = scope <;> simp [hnext]

theorem scope?_dropScope (r : Registry) (dropped scope : Nat) :
    (r.dropScope dropped).scope? scope = if dropped = scope then none else r.scope? scope := by
  rw [scope?, scope?, dropScope, List.find?_filter]
  split
  · rename_i heq
    simp [heq]
  · rename_i hne
    congr 2
    funext entry
    by_cases hentry : entry.1 = scope <;> simp [hentry, Ne.symm hne]

theorem scope?_clear (r : Registry) (scope : Nat) :
    r.clear.1.scope? scope =
      (r.scope? scope).map fun t => if scope ∈ r.tracked then .empty else t := by
  refine scope?_of_held_eq (fun n t => if n ∈ r.tracked then .empty else t) ?_ scope
  refine List.map_congr_left fun entry _ => ?_
  by_cases h : entry.1 ∈ r.tracked <;> simp [h]

-- What an operation can do to scopes. All others leave them as they are.
inductive Handles (r : Registry) : Operation → Registry → Prop where
  | newScope : Handles r .newScope r.newScope.1
  | dropScope (scope : Nat) : Handles r (.dropScope scope) (r.dropScope scope)
  | changeScope (scope : Nat) (change : Table → Table) :
      Handles r (.changeScope scope change) (r.updateScope scope change)
  | clear : Handles r .clear r.clear.1
  | aside {op : Operation} (hop : op.aboutScopes = false) (rules : Table)
      (threadLocal persistent : Bool) (keeper : Option Keeper) :
      Handles r op { r with rules, threadLocal, persistent, keeper }

theorem handles_perform (r : Registry) (op : Operation) : r.Handles op (r.perform op).1 := by
  cases habout : op.aboutScopes with
  | false =>
      obtain ⟨rules, threadLocal, persistent, keeper, -, hperform⟩ := r.exists_perform_eq habout
      rw [hperform]
      exact .aside habout rules threadLocal persistent keeper
  | true =>
      cases op with
      | newScope => exact .newScope
      | dropScope scope => exact .dropScope scope
      | changeScope scope change => exact .changeScope scope change
      | clear => exact .clear
      | _ => nomatch habout

namespace Handles

variable {r next : Registry} {op : Operation}

-- A scope comes to be held when it is made, under the next number, and stays so until it is
-- let go of.
theorem isHeld_iff (h : r.Handles op next) (scope : Nat) :
    next.isHeld scope ↔
      op = .newScope ∧ r.nextScope = scope ∨ r.isHeld scope ∧ op ≠ .dropScope scope := by
  rw [Registry.isHeld_iff, Registry.isHeld_iff]
  cases h with
  | newScope =>
      rw [scope?_newScope]
      cases r.scope? scope <;> simp
  | dropScope dropped =>
      rw [scope?_dropScope]
      by_cases hscope : dropped = scope <;> simp [hscope]
  | changeScope changed change =>
      rw [scope?_updateScope]
      by_cases hscope : changed = scope <;> simp [hscope]
  | clear => simp [scope?_clear]
  | aside hop =>
      have hnew : op ≠ .newScope := by
        rintro rfl
        nomatch hop
      have hdrop : op ≠ .dropScope scope := by
        rintro rfl
        nomatch hop
      simp only [hnew, hdrop, ne_eq, false_and, false_or, not_false_eq_true, and_true]
      rfl

-- Only scopes that nobody holds are ever forgotten.
theorem mem_tracked (h : r.Handles op next) {scope : Nat} (hheld : r.isHeld scope)
    (htracked : scope ∈ r.tracked) : scope ∈ next.tracked := by
  have hkept : scope ∈ r.tracked.filter r.isHeld := List.mem_filter.mpr ⟨htracked, hheld⟩
  cases h with
  | newScope => exact List.mem_append_left _ hkept
  | clear => exact hkept
  | dropScope | changeScope | aside => exact htracked

-- A scope that is tracked and stays held is changed through its number or emptied.
theorem scope?_eq (h : r.Handles op next) {scope : Nat} {t : Table} (ht : r.scope? scope = some t)
    (htracked : scope ∈ r.tracked) (hop : op ≠ .dropScope scope) :
    next.scope? scope = some (op.onScope scope t) := by
  cases h with
  | newScope =>
      rw [scope?_newScope, ht]
      rfl
  | dropScope dropped =>
      have hne : dropped ≠ scope := fun heq => hop (congrArg Operation.dropScope heq)
      rw [scope?_dropScope, if_neg hne, ht]
      rfl
  | changeScope changed change =>
      rw [scope?_updateScope, ht, Operation.onScope]
      split <;> rfl
  | clear =>
      rw [scope?_clear, ht, Option.map_some, if_pos htracked]
      rfl
  | aside hop =>
      rw [Operation.onScope_of_not_about hop]
      exact ht

end Handles

-- Every scope that is held is tracked.
def Tracks (r : Registry) : Prop :=
  ∀ scope, r.isHeld scope → scope ∈ r.tracked

namespace Tracks

variable {r : Registry}

protected theorem empty : Registry.empty.Tracks := by
  intro scope h
  nomatch h

protected theorem perform (h : r.Tracks) (op : Operation) : (r.perform op).1.Tracks := by
  intro scope hscope
  have hstep := r.handles_perform op
  obtain ⟨rfl, rfl⟩ | ⟨hheld, -⟩ := (hstep.isHeld_iff scope).mp hscope
  · exact List.mem_append_right _ (List.mem_singleton_self r.nextScope)
  · exact hstep.mem_tracked hheld (h scope hheld)

protected theorem run (h : r.Tracks) (ops : List Operation) : (r.run ops).Tracks := by
  induction ops generalizing r with
  | nil => exact h
  | cons op rest ih => exact ih (h.perform op)

theorem scope?_run (h : r.Tracks) {scope : Nat} {t : Table} (ht : r.scope? scope = some t)
    {ops : List Operation} (hkept : .dropScope scope ∉ ops) :
    (r.run ops).scope? scope = some (t.after scope ops) := by
  induction ops generalizing r t with
  | nil => exact ht
  | cons op rest ih =>
      obtain ⟨hop, hrest⟩ := not_or.mp (mt List.mem_cons.mpr hkept)
      have htracked := h scope (isHeld_iff.mpr ⟨t, ht⟩)
      exact ih (h.perform op) ((r.handles_perform op).scope?_eq ht htracked (Ne.symm hop)) hrest

theorem held_clear (h : r.Tracks) : r.clear.1.held = r.held.map fun entry => (entry.1, .empty) := by
  refine List.map_congr_left fun entry hentry => if_pos (h entry.1 ?_)
  exact List.any_eq_true.mpr ⟨entry, hentry, decide_eq_true rfl⟩

end Tracks

-- Somebody has been handed a scope in the course of a run and has not let go of it since.
def Holds (ops : List Operation) (scope : Nat) : Prop :=
  ∃ before later, ops = before ++ .newScope :: later ∧
    (Registry.empty.run before).newScope.2 = scope ∧ .dropScope scope ∉ later

theorem holds_concat_iff {ops : List Operation} {op : Operation} {scope : Nat} :
    Holds (ops ++ [op]) scope ↔
      op = .newScope ∧ (Registry.empty.run ops).nextScope = scope ∨
        Holds ops scope ∧ op ≠ .dropScope scope := by
  constructor
  · rintro ⟨before, later, heq, hscope, hkept⟩
    obtain rfl | ⟨later, last, rfl⟩ := List.eq_nil_or_concat' later
    · obtain ⟨rfl, hop⟩ := List.append_inj' heq rfl
      exact .inl ⟨List.singleton_injective hop, hscope⟩
    · rw [← List.cons_append, ← List.append_assoc] at heq
      obtain ⟨rfl, hop⟩ := List.append_inj' heq rfl
      obtain rfl := List.singleton_injective hop
      simp only [List.mem_append, List.mem_singleton, not_or] at hkept
      exact .inr ⟨⟨before, later, rfl, hscope, hkept.1⟩, Ne.symm hkept.2⟩
  · rintro (⟨rfl, hscope⟩ | ⟨⟨before, later, rfl, hscope, hkept⟩, hop⟩)
    · exact ⟨ops, [], rfl, hscope, List.not_mem_nil⟩
    · refine ⟨before, later ++ [op], by simp, hscope, ?_⟩
      simp [hkept, Ne.symm hop]

theorem isHeld_run_iff (ops : List Operation) (scope : Nat) :
    (Registry.empty.run ops).isHeld scope ↔ Holds ops scope := by
  induction ops using List.reverseRecOn with
  | nil => simp [Holds, isHeld, empty]
  | append_singleton ops op ih =>
      rw [holds_concat_iff, ← ih, run_append]
      exact ((Registry.empty.run ops).handles_perform op).isHeld_iff scope

-- A scope that the registry tracks has these rules, and who asks through it is answered from
-- them first if scopes count.
structure Shows (r : Registry) (scope : Nat) (t : Table) : Prop where
  tracked : scope ∈ r.tracked
  scope? : r.scope? scope = some t
  status : r.threadLocal → ∀ target, (r.resolve target (some scope)).1 =
    ((t.find? target).or (r.rules.find? target)).getD .opened

theorem Tracks.shows {r : Registry} (h : r.Tracks) {scope : Nat} {t : Table}
    (ht : r.scope? scope = some t) : r.Shows scope t where
  tracked := h scope (isHeld_iff.mpr ⟨t, ht⟩)
  scope? := ht
  status hlocal target := by
    rw [status_resolve, consulted?, if_pos hlocal, Option.bind_some, ht, Option.bind_some]

theorem Tracks.shows_clear {r : Registry} (h : r.Tracks) {scope : Nat} (hheld : r.isHeld scope) :
    (r.perform .clear).1.Shows scope .empty := by
  obtain ⟨t, ht⟩ := isHeld_iff.mp hheld
  exact (h.perform .clear).shows (Handles.clear.scope?_eq ht (h scope hheld) nofun)

-- In every run each scope that is held is tracked. So a clearing empties them all together with
-- the global rules, and whoever goes on holding one has it as if it were new, up to the next
-- clearing.
theorem clear_reaches_scopes (ops : List Operation) :
    let r := Registry.empty.run ops
    let cleared := (r.perform .clear).1
    r.perform .clear =
        ({ r with
            rules := .empty
            held := r.held.map fun entry => (entry.1, .empty)
            tracked := r.tracked.filter r.isHeld
            persistent := false }, .done, .log Registry.cleared) ∧
      ∀ scope, (r.isHeld scope ↔ Holds ops scope) ∧
        (Holds ops scope → scope ∈ r.tracked ∧ cleared.Shows scope .empty ∧
          ∀ later, .dropScope scope ∉ later →
            (cleared.run later).Shows scope (Table.empty.after scope later) ∧
            ((cleared.run later).perform .clear).1.Shows scope .empty) := by
  intro r cleared
  have htracks : r.Tracks := Tracks.empty.run ops
  refine ⟨?_, fun scope => ⟨isHeld_run_iff ops scope, fun hholds => ?_⟩⟩
  · rw [← htracks.held_clear]
    rfl
  · have hheld : r.isHeld scope := (isHeld_run_iff ops scope).mpr hholds
    have hcleared := htracks.shows_clear hheld
    refine ⟨htracks scope hheld, hcleared, fun later hlater => ?_⟩
    have hnow : (cleared.run later).Tracks := (htracks.perform .clear).run later
    have htable := (htracks.perform .clear).scope?_run hcleared.scope? hlater
    exact ⟨hnow.shows htable, hnow.shows_clear (isHeld_iff.mpr ⟨_, htable⟩)⟩

-- One of two scopes is let go of and forgotten. The other one is emptied, used once more and
-- emptied again.
theorem clear_reaches_scopes_again :
    let host : SocketPattern := ⟨some "db", none⟩
    let slow : Table → Table := (·.setSocket host (.delay 7))
    let shut : Table → Table := (·.setSocket host .closed)
    let ops : List Operation := [.newScope, .newScope, .changeScope 0 slow, .dropScope 1, .newScope,
      .changeScope 2 slow]
    let later : List Operation := [.setThreadLocal true, .dropScope 2, .changeScope 0 shut]
    let r := Registry.empty.run ops
    let cleared := (r.perform .clear).1
    Holds ops 0 ∧ .dropScope 0 ∉ later ∧ r.tracked = [0, 2] ∧ cleared.Shows 0 .empty ∧
      (cleared.run later).Shows 0 (shut .empty) ∧
      ((cleared.run later).perform .clear).1.Shows 0 .empty := by
  intro host slow shut ops later r cleared
  have hholds : Holds ops 0 := ⟨[], ops.tail, rfl, rfl, by simp [ops]⟩
  have hlater : .dropScope 0 ∉ later := by simp [later]
  obtain ⟨-, hempty, hnow⟩ := ((clear_reaches_scopes ops).2 0).2 hholds
  exact ⟨hholds, hlater, rfl, hempty, hnow later hlater⟩

end Registry

end CallWatch.Fault

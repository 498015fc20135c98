import CallWatch.Proofs.Fault.Listing
import Mathlib.Data.List.Nodup

namespace CallWatch.Fault

-- What a status does to a connection. Both ways to be open do nothing.
def Status.effect (s : Status) : Status :=
  if s.isOpen then .opened else s

@[simp]
theorem Status.isOpen_effect (s : Status) : s.effect.isOpen = s.isOpen := by
  rw [effect]
  split
  · rename_i h
    rw [h]
    rfl
  · rfl

theorem Status.effect_of_isOpen {s : Status} (h : s.isOpen) : s.effect = .opened :=
  if_pos h

theorem Status.effect_of_not_isOpen {s : Status} (h : s.isOpen = false) : s.effect = s := by
  simp [effect, h]

namespace Rules

variable {π τ : Type}

def effects (rules : Rules π) : Rules π :=
  rules.map fun r => (r.1, r.2.effect)

theorem patterns_effects (rules : Rules π) : rules.effects.patterns = rules.patterns := by
  rw [patterns, effects, List.map_map]
  rfl

theorem faults_effects (rules : Rules π) : rules.effects.faults = rules.faults := by
  induction rules with
  | nil => rfl
  | cons r rest ih =>
      simp only [effects, faults] at ih
      simp only [effects, faults, List.map_cons, List.filter_cons, Status.isOpen_effect, ih]
      split
      · rename_i h
        rw [Status.effect_of_not_isOpen (by simpa using h)]
      · rfl

theorem mem_patterns_filter (keep : π → Bool) {rules : Rules π} {p : π} :
    p ∈ patterns (rules.filter (keep ·.1)) ↔ p ∈ rules.patterns ∧ keep p := by
  rw [patterns, patterns, List.mem_map, List.mem_map]
  constructor
  · rintro ⟨r, hr, rfl⟩
    exact ⟨⟨r, (List.mem_filter.mp hr).1, rfl⟩, (List.mem_filter.mp hr).2⟩
  · rintro ⟨⟨r, hr, rfl⟩, hkeep⟩
    exact ⟨r, List.mem_filter.mpr ⟨hr, hkeep⟩, rfl⟩

variable [Pattern π τ]

theorem faultFor?_eq_some_of_forall {rules : Rules π} {target : τ} {r : π × Status}
    (hr : r ∈ rules.faults) (haccepts : Pattern.accepts r.1 target)
    (hall : ∀ q ∈ rules.faults, Pattern.accepts q.1 target → q.2 = r.2) :
    rules.faultFor? target = some r.2 := by
  rw [faultFor?_eq]
  cases h : rules.faults.find? fun q => Pattern.accepts q.1 target with
  | none => exact absurd haccepts (List.find?_eq_none.mp h r hr)
  | some q =>
      have hq : Pattern.accepts q.1 target := by simpa using List.find?_some h
      rw [Option.map_some, hall q (List.mem_of_find?_eq_some h) hq]

variable [DecidableEq π]

def within (found : List π) (rules : Rules π) : Rules π :=
  rules.filter (·.1 ∈ found)

def without (found : List π) (rules : Rules π) : Rules π :=
  rules.filter (·.1 ∉ found)

-- The fault that stands under a pattern.
def fault? (rules : Rules π) (p : π) : Option Status :=
  (rules.status? p).filter (!·.isOpen)

-- Whoever sets a rule in a list, sets it in each part of the list that has room for it.
theorem filter_set (keep : π → Bool) (rules : Rules π) (p : π) (status : Status) :
    (rules.set p status).filter (keep ·.1) =
      if keep p then set p status (rules.filter (keep ·.1)) else rules.filter (keep ·.1) := by
  induction rules with
  | nil => cases h : keep p <;> simp [set, h]
  | cons r rest ih =>
      obtain ⟨q, s⟩ := r
      by_cases hq : q = p
      · subst hq
        cases h : keep q <;> simp [set, h]
      · rw [set, if_neg hq, List.filter_cons, ih, List.filter_cons]
        cases hp : keep p <;> cases hkeep : keep q <;> simp [set, hq]

theorem effects_set (rules : Rules π) (p : π) (status : Status) :
    (rules.set p status).effects = rules.effects.set p status.effect := by
  induction rules with
  | nil => rfl
  | cons r rest ih =>
      by_cases hr : r.1 = p
      · simp only [effects, set, List.map_cons, if_pos hr]
      · simp only [effects] at ih
        simp only [effects, set, List.map_cons, if_neg hr, ih]

theorem fault?_set (rules : Rules π) (p q : π) (status : Status) :
    (rules.set p status).fault? q =
      if p = q then (some status).filter (!·.isOpen) else rules.fault? q := by
  rw [fault?, status?_set]
  split <;> rfl

-- A pattern that is listed once has its rule found.
theorem status?_of_mem {rules : Rules π} (hd : rules.Distinct) {r : π × Status} (h : r ∈ rules) :
    rules.status? r.1 = some r.2 := by
  induction rules with
  | nil => cases h
  | cons q rest ih =>
      obtain ⟨hnew, hrest⟩ := List.nodup_cons.mp hd
      cases List.mem_cons.mp h with
      | inl heq => simp [status?, heq]
      | inr hmem =>
          have hne : q.1 ≠ r.1 := fun he => hnew (List.mem_map.mpr ⟨r, hmem, he.symm⟩)
          rw [← ih hrest hmem]
          simp [status?, hne]

theorem status?_filter (keep : π → Bool) {p : π} (hp : keep p) (rules : Rules π) :
    status? (rules.filter (keep ·.1)) p = rules.status? p := by
  induction rules with
  | nil => rfl
  | cons r rest ih =>
      simp only [status?] at ih
      by_cases hr : r.1 = p
      · simp [status?, hr, hp]
      · simp only [status?, List.filter_cons, List.find?_cons, hr, decide_false]
        split
        · rw [List.find?_cons_of_neg (by simp [hr]), ih]
        · exact ih

theorem status?_effects (rules : Rules π) (p : π) :
    rules.effects.status? p = (rules.status? p).map Status.effect := by
  rw [status?, effects, List.find?_map, status?, Option.map_map, Option.map_map]
  rfl

-- Rules that differ by what lookups have found in one of two runs. All other rules
-- have the same effects in the same order. The found ones are listed once, have the
-- same faults, and may stand anywhere.
structure Shifted (found : List π) (a b : Rules π) : Prop where
  others : (a.without found).effects = (b.without found).effects
  moved : ∀ p ∈ found, a.fault? p = b.fault? p
  once : (a.within found).Distinct ∧ (b.within found).Distinct

namespace Shifted

variable {found : List π} {a b : Rules π}

protected theorem refl (rules : Rules π) : Shifted [] rules rules where
  others := rfl
  moved := by simp
  once := by simp [within, Distinct, patterns]

protected theorem set (h : Shifted found a b) (p : π) (status : Status) :
    Shifted found (a.set p status) (b.set p status) where
  others := by
    rw [without, without, filter_set (· ∉ found), filter_set (· ∉ found)]
    split
    · rw [effects_set, effects_set]
      exact congrArg (set p status.effect) h.others
    · exact h.others
  moved q hq := by
    rw [fault?_set, fault?_set, h.moved q hq]
  once := by
    rw [within, within, filter_set (· ∈ found), filter_set (· ∈ found)]
    split
    · exact ⟨h.once.1.set p status, h.once.2.set p status⟩
    · exact h.once

theorem foldl_set {ε : Type} (pattern : ε → π) (status : ε → Status) (entries : List ε)
    (h : Shifted found a b) :
    Shifted found (entries.foldl (fun rules e => rules.set (pattern e) (status e)) a)
      (entries.foldl (fun rules e => rules.set (pattern e) (status e)) b) := by
  induction entries generalizing a b with
  | nil => exact h
  | cons e rest ih => exact ih (h.set (pattern e) (status e))

-- In one run something that is found or listed is put down as open, without a fault to
-- take away.
theorem set_left (h : Shifted found a b) {p : π} (hp : p ∈ found ∨ p ∈ a.patterns)
    (hfault : a.fault? p = none) : Shifted found (a.set p .opened) b where
  others := by
    rw [without, filter_set (· ∉ found)]
    split
    · rename_i hnot
      have hmem := hp.resolve_left (by simpa using hnot)
      obtain ⟨old, hold⟩ := Option.ne_none_iff_exists'.mp
        (mt status?_eq_none_iff.mp (not_not.mpr hmem))
      have hopen : old.isOpen := by simpa [fault?, hold] using hfault
      have hsame : (a.without found).effects.status? p = some .opened := by
        rw [status?_effects, without, status?_filter (· ∉ found) hnot, hold,
          Option.map_some, Status.effect_of_isOpen hopen]
      rw [effects_set]
      exact (set_eq_self hsame).trans h.others
    · exact h.others
  moved q hq := by
    rw [fault?_set, ← h.moved q hq]
    split
    · rename_i heq
      rw [← heq, hfault]
      rfl
    · rfl
  once := by
    rw [within, filter_set (· ∈ found)]
    split
    · exact ⟨h.once.1.set p .opened, h.once.2⟩
    · exact h.once

theorem not_mem_right (h : Shifted found a b) {p : π} (hp : p ∉ a.patterns) (hnew : p ∉ found) :
    p ∉ b.patterns := by
  have hpatterns : (a.without found).patterns = (b.without found).patterns := by
    rw [← patterns_effects, h.others, patterns_effects]
  intro hb
  have hmem : p ∈ (b.without found).patterns :=
    (mem_patterns_filter (· ∉ found)).mpr ⟨hb, by simpa using hnew⟩
  rw [← hpatterns] at hmem
  exact hp ((mem_patterns_filter (· ∉ found)).mp hmem).1

theorem cons_of_mem (h : Shifted found a b) {p : π} (hp : p ∈ found) :
    Shifted (p :: found) a b := by
  have hsame (q : π) : q ∈ p :: found ↔ q ∈ found := by
    rw [List.mem_cons]
    exact or_iff_right_of_imp fun hq => hq ▸ hp
  constructor
  · simpa only [without, hsame] using h.others
  · exact fun q hq => h.moved q ((hsame q).mp hq)
  · simpa only [within, hsame] using h.once

-- In one run something new is put down as open.
theorem set_left_of_not_mem (h : Shifted found a b) {p : π} (hp : p ∉ a.patterns)
    (hnew : p ∉ found) : Shifted (p :: found) (a.set p .opened) b := by
  have hb := h.not_mem_right hp hnew
  have hkeeps {rules : Rules π} (hrules : p ∉ rules.patterns) :
      rules.within (p :: found) = rules.within found ∧
        rules.without (p :: found) = rules.without found := by
    have hne : ∀ r ∈ rules, r.1 ≠ p := fun r hr he => hrules (he ▸ List.mem_map_of_mem hr)
    exact ⟨List.filter_congr fun r hr => by simp [hne r hr],
      List.filter_congr fun r hr => by simp [hne r hr]⟩
  constructor
  · rw [without, filter_set (· ∉ p :: found), if_neg (by simp)]
    change (a.without (p :: found)).effects = _
    rw [(hkeeps hp).2, (hkeeps hb).2, h.others]
  · intro q hq
    rw [fault?_set]
    split
    · rename_i heq
      rw [← heq, fault?, status?_eq_none_iff.mpr hb]
      rfl
    · rename_i hne
      exact h.moved q ((List.mem_cons.mp hq).resolve_left (Ne.symm hne))
  · rw [within, filter_set (· ∈ p :: found), if_pos (by simp)]
    change Distinct (set p .opened (a.within (p :: found))) ∧ _
    rw [(hkeeps hp).1, (hkeeps hb).1]
    exact ⟨h.once.1.set p .opened, h.once.2⟩

-- A fault of one run is a fault of the other: under a found pattern, as its only rule,
-- and elsewhere, since the rules there are the same.
theorem mem_faults_of_mem (h : Shifted found a b) {r : π × Status} (hr : r ∈ a.faults) :
    r ∈ b.faults := by
  obtain ⟨hmem, hfault⟩ := List.mem_filter.mp hr
  by_cases hp : r.1 ∈ found
  · have hin : r ∈ a.within found := List.mem_filter.mpr ⟨hmem, by simpa using hp⟩
    have hstatus : a.status? r.1 = some r.2 := by
      rw [← status?_filter (· ∈ found) (by simpa using hp)]
      exact status?_of_mem h.once.1 hin
    have hsame : b.fault? r.1 = some r.2 := by
      rw [← h.moved r.1 hp, fault?, hstatus, Option.filter_some, if_pos hfault]
    exact List.mem_filter.mpr ⟨mem_of_status? (Option.filter_eq_some_iff.mp hsame).1, hfault⟩
  · have hin : r ∈ (a.without found).faults :=
      List.mem_filter.mpr ⟨List.mem_filter.mpr ⟨hmem, by simpa using hp⟩, hfault⟩
    rw [← faults_effects, h.others, faults_effects] at hin
    obtain ⟨hrest, -⟩ := List.mem_filter.mp hin
    exact List.mem_filter.mpr ⟨(List.mem_filter.mp hrest).1, hfault⟩

theorem symm (h : Shifted found a b) : Shifted found b a :=
  ⟨h.others.symm, fun p hp => (h.moved p hp).symm, h.once.symm⟩

theorem mem_faults_iff (h : Shifted found a b) (r : π × Status) : r ∈ a.faults ↔ r ∈ b.faults :=
  ⟨h.mem_faults_of_mem, h.symm.mem_faults_of_mem⟩

end Shifted

-- The faults that meet a target are at one about it, or the found ones are not among them.
def Settled (found : List π) (rules : Rules π) (target : τ) : Prop :=
  ∀ r ∈ rules.faults, r.1 ∈ found → Pattern.accepts r.1 target →
    ∀ q ∈ rules.faults, Pattern.accepts q.1 target → q.2 = r.2

instance (found : List π) (rules : Rules π) (target : τ) : Decidable (Settled found rules target) :=
  inferInstanceAs (Decidable (∀ r ∈ rules.faults, r.1 ∈ found → Pattern.accepts r.1 target →
    ∀ q ∈ rules.faults, Pattern.accepts q.1 target → q.2 = r.2))

theorem faultFor?_without {found : List π} {rules : Rules π} {target : τ}
    (h : ∀ r ∈ rules.faults, r.1 ∈ found → ¬Pattern.accepts r.1 target) :
    (rules.without found).faultFor? target = rules.faultFor? target := by
  rw [faultFor?, faultFor?, ← List.head?_filter, ← List.head?_filter, without, List.filter_filter]
  congr 2
  refine List.filter_congr fun r hr => ?_
  by_cases hfault : r ∈ rules.faults ∧ Pattern.accepts r.1 target
  · have hnot : r.1 ∉ found := fun hmem => h r hfault.1 hmem hfault.2
    simp [hnot]
  · have hpasses : (!r.2.isOpen && Pattern.accepts r.1 target) = false := by
      rw [Bool.eq_false_iff]
      intro hmeets
      obtain ⟨hopen, haccepts⟩ := Bool.and_eq_true_iff.mp hmeets
      exact hfault ⟨List.mem_filter.mpr ⟨hr, hopen⟩, haccepts⟩
    simp [hpasses]

namespace Shifted

variable {found : List π} {a b : Rules π}

theorem faultFor?_eq_none_iff (h : Shifted found a b) (target : τ) :
    a.faultFor? target = none ↔ b.faultFor? target = none := by
  rw [faultFor?_eq, faultFor?_eq, Option.map_eq_none_iff, Option.map_eq_none_iff,
    List.find?_eq_none, List.find?_eq_none]
  exact forall_congr' fun r => by rw [h.mem_faults_iff r]

theorem faultFor?_eq (h : Shifted found a b) {target : τ} (hs : a.Settled found target) :
    a.faultFor? target = b.faultFor? target := by
  by_cases hmet : ∃ r ∈ a.faults, r.1 ∈ found ∧ Pattern.accepts r.1 target
  · obtain ⟨r, hr, hfound, haccepts⟩ := hmet
    have hall := hs r hr hfound haccepts
    rw [faultFor?_eq_some_of_forall hr haccepts hall,
      faultFor?_eq_some_of_forall (h.mem_faults_of_mem hr) haccepts
        fun q hq => hall q (h.symm.mem_faults_of_mem hq)]
  · have hleft : ∀ r ∈ a.faults, r.1 ∈ found → ¬Pattern.accepts r.1 target :=
      fun r hr hfound haccepts => hmet ⟨r, hr, hfound, haccepts⟩
    have hright : ∀ r ∈ b.faults, r.1 ∈ found → ¬Pattern.accepts r.1 target :=
      fun r hr => hleft r (h.symm.mem_faults_of_mem hr)
    rw [← faultFor?_without hleft, ← faultFor?_without hright]
    refine faultFor?_congr ?_ target
    rw [← faults_effects, h.others, faults_effects]

-- Both runs look the target up.
protected theorem resolve (h : Shifted found a b) (target : τ) :
    Shifted found (a.resolve target).2 (b.resolve target).2 := by
  cases ha : a.faultFor? target with
  | some status =>
      obtain ⟨other, hb⟩ := Option.ne_none_iff_exists'.mp fun hb => by
        rw [(h.faultFor?_eq_none_iff target).mpr hb] at ha
        cases ha
      rwa [resolve_of_faultFor? ha, resolve_of_faultFor? hb]
  | none =>
      have hb := (h.faultFor?_eq_none_iff target).mp ha
      rw [(resolve_of_faultFor?_eq_none ha).2, (resolve_of_faultFor?_eq_none hb).2]
      exact h.set _ _

variable [Pattern.Lawful π]

theorem fault?_exact {rules : Rules π} {target : τ} (h : rules.faultFor? target = none) :
    rules.fault? (Pattern.exact target) = none := by
  rw [fault?, Option.filter_eq_none_iff]
  intro status hstatus
  simpa using isOpen_of_exact h (mem_of_status? hstatus) rfl

-- Only one run looks the target up. If that lists it, the target is found.
theorem resolve_left (h : Shifted found a b) {target : τ}
    (hlisted : Pattern.exact target ∈ (a.resolve target).2.patterns →
      Pattern.exact target ∈ a.patterns) :
    Shifted found (a.resolve target).2 b := by
  cases ha : a.faultFor? target with
  | some status => rwa [resolve_of_faultFor? ha]
  | none =>
      rw [(resolve_of_faultFor?_eq_none ha).2] at hlisted ⊢
      have hmem : Pattern.exact target ∈ (a.set (Pattern.exact target) .opened).patterns := by
        rw [patterns_set]
        split
        · assumption
        · simp
      exact h.set_left (.inr (hlisted hmem)) (fault?_exact ha)

theorem resolve_left_new (h : Shifted found a b) {target : τ}
    (hnew : Pattern.exact target ∉ a.patterns)
    (hlisted : Pattern.exact target ∈ (a.resolve target).2.patterns) :
    Shifted (Pattern.exact target :: found) (a.resolve target).2 b := by
  cases ha : a.faultFor? target with
  | some status =>
      rw [resolve_of_faultFor? ha] at hlisted
      exact absurd hlisted hnew
  | none =>
      rw [(resolve_of_faultFor?_eq_none ha).2]
      by_cases hp : Pattern.exact target ∈ found
      · exact (h.set_left (.inl hp) (fault?_exact ha)).cons_of_mem hp
      · exact h.set_left_of_not_mem hnew hp

end Shifted

end Rules

end CallWatch.Fault

import CallWatch.Proofs.Key.Firsts
import Mathlib.Data.List.Induction
import Mathlib.Data.List.Perm.Subperm

namespace CallWatch.Key

-- Plain lists that hold one value for each key, in the order in which the keys first
-- came. Tallies of calls and packets of a stream are collected in the same way.
section

variable {β : Type} (op : β → β → β)

-- Combines a value with the first one of its key, or puts it last.
def upsert (key : Key) (value : β) : List (Key × β) → List (Key × β)
  | [] => [(key, value)]
  | (k, v) :: rest =>
      if k == key then (k, op v value) :: rest else (k, v) :: upsert key value rest

def collect (entries : List (Key × β)) : List (Key × β) :=
  entries.foldl (fun collected (key, value) => upsert op key value collected) []

def valuesOf (key : Key) (entries : List (Key × β)) : List β :=
  (entries.filter (·.1 == key)).map (·.2)

def lookup (entries : List (Key × β)) (key : Key) : Option β :=
  (entries.find? (·.1 == key)).map (·.2)

-- No two entries are for equal keys.
def Distinct (entries : List (Key × β)) : Prop :=
  (entries.map (·.1.identity)).Nodup

theorem Distinct.filter {entries : List (Key × β)} (h : Distinct entries) (p : Key × β → Bool) :
    Distinct (entries.filter p) :=
  h.sublist (List.filter_sublist.map _)

theorem valuesOf_append (key : Key) (a b : List (Key × β)) :
    valuesOf key (a ++ b) = valuesOf key a ++ valuesOf key b := by
  simp [valuesOf]

theorem valuesOf_congr {a b : Key} (h : a == b) (entries : List (Key × β)) :
    valuesOf a entries = valuesOf b entries := by
  simp only [valuesOf, BEq.congr_right h]

theorem valuesOf_perm {a b : List (Key × β)} (h : a.Perm b) (key : Key) :
    (valuesOf key a).Perm (valuesOf key b) :=
  (h.filter _).map _

theorem valuesOf_eq_nil {key : Key} {entries : List (Key × β)}
    (h : entries.any (·.1 == key) = false) : valuesOf key entries = [] := by
  rw [valuesOf, List.filter_eq_nil_iff.mpr, List.map_nil]
  intro entry he
  exact List.any_eq_false.mp h entry he

theorem valuesOf_filter {p : Key → Bool} (hp : Respects p) {key : Key} (hk : p key)
    (entries : List (Key × β)) :
    valuesOf key (entries.filter (p ·.1)) = valuesOf key entries := by
  rw [valuesOf, List.filter_filter, valuesOf]
  congr 1
  apply List.filter_congr
  intro e _
  by_cases he : e.1 == key
  · rw [he, hp e.1 key he, hk, Bool.and_self]
  · rw [Bool.of_not_eq_true he, Bool.false_and]

theorem valuesOf_concat (key other : Key) (value : β) (entries : List (Key × β)) :
    valuesOf other (entries ++ [(key, value)]) =
      if key == other then valuesOf other entries ++ [value] else valuesOf other entries := by
  rw [valuesOf_append]
  by_cases h : key == other
  · have hs : valuesOf other [(key, value)] = [value] := by simp [valuesOf, h]
    rw [hs, if_pos h]
  · have hs : valuesOf other [(key, value)] = [] := by simp [valuesOf, h]
    rw [hs, if_neg h, List.append_nil]

theorem collect_concat (entries : List (Key × β)) (key : Key) (value : β) :
    collect op (entries ++ [(key, value)]) = upsert op key value (collect op entries) := by
  simp [collect]

theorem upsert_of_not_any {entries : List (Key × β)} {key : Key} (value : β)
    (h : entries.any (·.1 == key) = false) :
    upsert op key value entries = entries ++ [(key, value)] := by
  induction entries with
  | nil => rfl
  | cons entry rest ih =>
      rw [List.any_cons, Bool.or_eq_false_iff] at h
      rw [upsert, if_neg (by rw [h.1]; exact Bool.false_ne_true), ih h.2, List.cons_append]

-- With distinct keys there is only one value to combine with.
theorem upsert_of_any {entries : List (Key × β)} {key : Key} (value : β)
    (hd : Distinct entries) (h : entries.any (·.1 == key)) :
    upsert op key value entries =
      entries.map fun e => (e.1, if e.1 == key then op e.2 value else e.2) := by
  induction entries with
  | nil => cases h
  | cons entry rest ih =>
      obtain ⟨k, v⟩ := entry
      obtain ⟨hnot, hrest⟩ := List.nodup_cons.mp hd
      by_cases hk : k == key
      · have hother : ∀ e ∈ rest, (e.1 == key) = false := by
          intro e he
          apply Bool.of_not_eq_true
          intro hek
          have hsame : e.1.identity = k.identity :=
            (beq_iff.mp hek).trans (beq_iff.mp hk).symm
          exact hnot (List.mem_map.mpr ⟨e, he, hsame⟩)
        have hkeep :
            (rest.map fun e => (e.1, if e.1 == key then op e.2 value else e.2)) = rest := by
          refine (List.map_congr_left fun e he => ?_).trans (List.map_id rest)
          simp only [hother e he, Bool.false_eq_true, if_false, id_eq]
        simp only [upsert, hk, if_true, List.map_cons, hkeep]
      · rw [List.any_cons, Bool.or_eq_true] at h
        simp only [upsert, hk, Bool.false_eq_true, if_false, List.map_cons,
          ih hrest (h.resolve_left hk)]

theorem keys_upsert (key : Key) (value : β) (entries : List (Key × β)) :
    (upsert op key value entries).map (·.1) =
      if entries.any (·.1 == key) then entries.map (·.1) else entries.map (·.1) ++ [key] := by
  induction entries with
  | nil => rfl
  | cons entry rest ih =>
      rw [upsert, List.any_cons]
      by_cases hk : entry.1 == key
      · simp only [hk, if_true, Bool.true_or, List.map_cons]
      · simp only [hk, Bool.false_eq_true, if_false, Bool.false_or, List.map_cons, ih]
        split <;> rfl

theorem firsts_keys_concat (entries : List (Key × β)) (key : Key) (value : β) :
    firsts ((entries ++ [(key, value)]).map (·.1)) =
      if entries.any (·.1 == key) then firsts (entries.map (·.1))
      else firsts (entries.map (·.1)) ++ [key] := by
  rw [List.map_append, List.map_singleton, firsts_concat, List.any_map]
  rfl

theorem keys_collect (entries : List (Key × β)) :
    (collect op entries).map (·.1) = firsts (entries.map (·.1)) := by
  induction entries using List.reverseRecOn with
  | nil => rfl
  | append_singleton entries entry ih =>
      have hany : (collect op entries).any (·.1 == entry.1) = entries.any (·.1 == entry.1) := by
        have h := any_firsts entry.1 (entries.map (·.1))
        rw [← ih, List.any_map, List.any_map] at h
        exact h
      rw [collect_concat, keys_upsert, firsts_keys_concat, hany, ih]

theorem distinct_collect (entries : List (Key × β)) : Distinct (collect op entries) := by
  have h := nodup_firsts (entries.map (·.1))
  rw [← keys_collect op, List.map_map] at h
  exact h

theorem any_collect (entries : List (Key × β)) (key : Key) :
    (collect op entries).any (·.1 == key) = entries.any (·.1 == key) := by
  have h := any_firsts key (entries.map (·.1))
  rw [← keys_collect op, List.any_map, List.any_map] at h
  exact h

-- The closed form of a collection: each key where it first came, with everything that
-- came for it, combined from the left.
theorem collect_eq {unit : β} (hunit : ∀ b, op unit b = b) (entries : List (Key × β)) :
    collect op entries =
      (firsts (entries.map (·.1))).map fun key => (key, (valuesOf key entries).foldl op unit) := by
  induction entries using List.reverseRecOn with
  | nil => rfl
  | append_singleton entries entry ih =>
      obtain ⟨key, value⟩ := entry
      rw [collect_concat, firsts_keys_concat]
      by_cases hk : entries.any (·.1 == key)
      · rw [upsert_of_any op value (distinct_collect op entries) ((any_collect op _ _).trans hk),
          if_pos hk, ih, List.map_map]
        apply List.map_congr_left
        intro k _
        rw [Function.comp_apply, valuesOf_concat, BEq.comm]
        by_cases he : key == k
        · simp only [he, if_true, List.foldl_append, List.foldl_cons, List.foldl_nil]
        · simp only [he, Bool.false_eq_true, if_false]
      · have hf : entries.any (·.1 == key) = false := Bool.of_not_eq_true hk
        rw [upsert_of_not_any op value ((any_collect op _ _).trans hf), if_neg hk, ih,
          List.map_append, List.map_singleton, valuesOf_concat, if_pos (BEq.refl key),
          valuesOf_eq_nil hf, List.nil_append, List.foldl_cons, List.foldl_nil, hunit]
        congr 1
        apply List.map_congr_left
        intro k hmem
        have hne : ¬(key == k) = true := by
          intro he
          obtain ⟨e, hin, rfl⟩ := List.mem_map.mp ((firsts_sublist _).mem hmem)
          exact hk (List.any_eq_true.mpr ⟨e, hin, BEq.symm he⟩)
        rw [valuesOf_concat, if_neg hne]

theorem lookup_map_firsts {f : Key → β} (hf : ∀ {a b : Key}, a == b → f a = f b)
    (keys : List Key) (key : Key) :
    lookup ((firsts keys).map fun k => (k, f k)) key =
      if keys.any (· == key) then some (f key) else none := by
  rw [lookup, List.find?_map, Option.map_map, ← any_firsts]
  cases hfind : (firsts keys).find? (· == key) with
  | none =>
      have hnone := List.find?_eq_none.mp hfind
      rw [if_neg fun h => (List.any_eq_true.mp h).elim fun k hk => hnone k hk.1 hk.2]
      exact congrArg _ hfind
  | some k =>
      have hk : (k == key) = true := List.find?_some (p := (· == key)) hfind
      have hmem := List.mem_of_find?_eq_some hfind
      rw [if_pos (List.any_eq_true.mpr ⟨k, hmem, hk⟩), ← hf hk]
      exact congrArg _ hfind

theorem lookup_collect {unit : β} (hunit : ∀ b, op unit b = b) (entries : List (Key × β))
    (key : Key) :
    lookup (collect op entries) key =
      if entries.any (·.1 == key) then some ((valuesOf key entries).foldl op unit) else none := by
  rw [collect_eq op hunit, lookup_map_firsts fun h => by rw [valuesOf_congr h], List.any_map]
  rfl

theorem collect_eq_self {entries : List (Key × β)} (h : Distinct entries) :
    collect op entries = entries := by
  induction entries using List.reverseRecOn with
  | nil => rfl
  | append_singleton entries entry ih =>
      rw [Distinct, List.map_append, List.map_singleton, List.nodup_append] at h
      obtain ⟨hentries, -, hnew⟩ := h
      rw [collect_concat, ih hentries, upsert_of_not_any]
      apply List.any_eq_false.mpr
      intro e he hek
      exact hnew _ (List.mem_map_of_mem he) _ (List.mem_singleton_self _) (beq_iff.mp hek)

theorem filter_upsert {p : Key → Bool} (hp : Respects p) (key : Key) (value : β)
    (entries : List (Key × β)) :
    (upsert op key value entries).filter (p ·.1) =
      if p key then upsert op key value (entries.filter (p ·.1)) else entries.filter (p ·.1) := by
  induction entries with
  | nil => by_cases hk : p key <;> simp [upsert, hk]
  | cons entry rest ih =>
      obtain ⟨k, v⟩ := entry
      rw [upsert]
      by_cases hk : k == key
      · rw [if_pos hk]
        by_cases hpk : p key
        · simp only [List.filter_cons, hp k key hk, hpk, if_true, upsert, hk]
        · simp only [List.filter_cons, hp k key hk, hpk, Bool.false_eq_true, if_false]
      · rw [if_neg hk, List.filter_cons, ih]
        by_cases hpk : p key <;> by_cases hpe : p k <;>
          simp only [hpk, hpe, if_true, Bool.false_eq_true, if_false, List.filter_cons, upsert, hk]

theorem collect_filter {p : Key → Bool} (hp : Respects p) (entries : List (Key × β)) :
    collect op (entries.filter (p ·.1)) = (collect op entries).filter (p ·.1) := by
  induction entries using List.reverseRecOn with
  | nil => rfl
  | append_singleton entries entry ih =>
      obtain ⟨key, value⟩ := entry
      rw [collect_concat, filter_upsert op hp, List.filter_append, List.filter_cons,
        List.filter_nil]
      by_cases hk : p key
      · simp only [hk, if_true, collect_concat, ih]
      · simp only [hk, Bool.false_eq_true, if_false, List.append_nil, ih]

-- Values can be mapped before or after they are collected.
theorem collect_map {γ : Type} (op' : γ → γ → γ) (f : β → γ)
    (hf : ∀ a b, f (op a b) = op' (f a) (f b)) (entries : List (Key × β)) :
    collect op' (entries.map fun e => (e.1, f e.2)) =
      (collect op entries).map fun e => (e.1, f e.2) := by
  have hupsert (key : Key) (value : β) (l : List (Key × β)) :
      upsert op' key (f value) (l.map fun e => (e.1, f e.2)) =
        (upsert op key value l).map fun e => (e.1, f e.2) := by
    induction l with
    | nil => rfl
    | cons entry rest ih =>
        rw [List.map_cons, upsert, upsert]
        split
        · rw [List.map_cons, hf]
        · rw [List.map_cons, ih]
  induction entries using List.reverseRecOn with
  | nil => rfl
  | append_singleton entries entry ih =>
      rw [List.map_append, List.map_singleton, collect_concat, ih, hupsert, ← collect_concat]

-- What holds of every entry and survives combining holds of everything collected.
theorem forall_collect {P : Key → β → Prop}
    (hop : ∀ {a b : Key} {v w : β}, a == b → P a v → P b w → P a (op v w))
    {entries : List (Key × β)} (h : ∀ e ∈ entries, P e.1 e.2) :
    ∀ e ∈ collect op entries, P e.1 e.2 := by
  have hupsert (key : Key) (value : β) (hnew : P key value) (l : List (Key × β))
      (hl : ∀ e ∈ l, P e.1 e.2) : ∀ e ∈ upsert op key value l, P e.1 e.2 := by
    induction l with
    | nil =>
        intro e he
        rw [List.mem_singleton.mp he]
        exact hnew
    | cons entry rest ih =>
        obtain ⟨hentry, hrest⟩ := List.forall_mem_cons.mp hl
        rw [upsert]
        split
        · rename_i hk
          exact List.forall_mem_cons.mpr ⟨hop hk hentry hnew, hrest⟩
        · exact List.forall_mem_cons.mpr ⟨hentry, ih hrest⟩
  induction entries using List.reverseRecOn with
  | nil =>
      intro e he
      cases he
  | append_singleton entries entry ih =>
      obtain ⟨hentries, hentry⟩ := List.forall_mem_append.mp h
      rw [collect_concat]
      exact hupsert _ _ (hentry entry (List.mem_singleton_self entry)) _ (ih hentries)

end

-- Lists that are collected keep all that is in them.
theorem flatten_collect_perm {γ : Type} (entries : List (Key × List γ)) :
    ((collect (· ++ ·) entries).map (·.2)).flatten.Perm (entries.map (·.2)).flatten := by
  have hupsert (key : Key) (value : List γ) (l : List (Key × List γ)) :
      ((upsert (· ++ ·) key value l).map (·.2)).flatten.Perm ((l.map (·.2)).flatten ++ value) := by
    induction l with
    | nil => simp [upsert]
    | cons entry rest ih =>
        rw [upsert]
        split
        · simp only [List.map_cons, List.flatten_cons, List.append_assoc]
          exact List.perm_append_comm.append_left _
        · simp only [List.map_cons, List.flatten_cons, List.append_assoc]
          exact ih.append_left _
  induction entries using List.reverseRecOn with
  | nil => exact .nil
  | append_singleton entries entry ih =>
      rw [collect_concat, List.map_append, List.flatten_append, List.map_singleton,
        List.flatten_singleton]
      exact (hupsert _ _ _).trans (ih.append_right _)

-- Parts that are each of one key, all different, never take an entry twice.
theorem flatten_subperm {γ : Type} {parts : List (Key × List (Key × γ))}
    {entries : List (Key × γ)} (hd : Distinct parts)
    (h : ∀ part ∈ parts, part.2.Sublist (entries.filter (·.1 == part.1))) :
    (parts.map (·.2)).flatten.Subperm entries := by
  induction parts generalizing entries with
  | nil => exact List.nil_subperm
  | cons part rest ih =>
      obtain ⟨hnew, hrest⟩ := List.nodup_cons.mp hd
      obtain ⟨hpart, hothers⟩ := List.forall_mem_cons.mp h
      have hleft : ∀ other ∈ rest, other.2.Sublist
          ((entries.filter fun e => !(e.1 == part.1)).filter (·.1 == other.1)) := by
        intro other ho
        have hfilter : (entries.filter fun e => !(e.1 == part.1)).filter (·.1 == other.1) =
            entries.filter (·.1 == other.1) := by
          rw [List.filter_filter]
          apply List.filter_congr
          intro e _
          by_cases he : e.1 == other.1
          · have hne : (e.1 == part.1) = false := by
              apply Bool.of_not_eq_true
              intro hsame
              have hidentity : other.1.identity = part.1.identity :=
                (beq_iff.mp he).symm.trans (beq_iff.mp hsame)
              exact hnew (List.mem_map.mpr ⟨other, ho, hidentity⟩)
            rw [he, hne]
            rfl
          · rw [Bool.of_not_eq_true he, Bool.false_and]
        rw [hfilter]
        exact hothers other ho
      have hsplit := List.filter_append_perm (fun e => e.1 == part.1) entries
      rw [List.map_cons, List.flatten_cons]
      exact (hpart.subperm.append (ih hrest hleft)).trans hsplit.subperm

-- Different keys share no entry, and together they have all entries of theirs.
theorem flatten_filter_perm {γ : Type} {keys : List Key} (hd : (keys.map identity).Nodup)
    (entries : List (Key × γ)) :
    (keys.map fun key => entries.filter (·.1 == key)).flatten.Perm
      (entries.filter fun e => keys.any (e.1 == ·)) := by
  induction keys with
  | nil => simp
  | cons key rest ih =>
      obtain ⟨hnew, hrest⟩ := List.nodup_cons.mp hd
      let those := entries.filter fun e => (key :: rest).any (e.1 == ·)
      have hkey : those.filter (·.1 == key) = entries.filter (·.1 == key) := by
        rw [List.filter_filter]
        apply List.filter_congr
        intro e _
        rw [List.any_cons]
        cases e.1 == key <;> rfl
      have hothers : those.filter (fun e => !(e.1 == key)) =
          entries.filter fun e => rest.any (e.1 == ·) := by
        rw [List.filter_filter]
        apply List.filter_congr
        intro e _
        rw [List.any_cons]
        by_cases he : e.1 == key
        · have hnone : rest.any (e.1 == ·) = false := by
            apply List.any_eq_false.mpr
            intro other ho hsame
            have hidentity : other.identity = key.identity :=
              (beq_iff.mp hsame).symm.trans (beq_iff.mp he)
            exact hnew (List.mem_map.mpr ⟨other, ho, hidentity⟩)
          rw [he, hnone]
          rfl
        · rw [Bool.of_not_eq_true he, Bool.false_or, Bool.not_false, Bool.true_and]
      have hsplit := List.filter_append_perm (fun e => e.1 == key) those
      rw [hkey, hothers] at hsplit
      rw [List.map_cons, List.flatten_cons]
      exact ((ih hrest).append_left _).trans hsplit

-- What is filed under the keys that are let through, key by key, is all that is let
-- through, in another order.
theorem flatten_valuesOf_firsts_perm {γ : Type} {keep : Key → Bool} (hkeep : Respects keep)
    {keys : List Key} {entries : List (Key × γ)} (h : ∀ e ∈ entries, e.1 ∈ keys) :
    (((firsts keys).filter keep).map fun key => valuesOf key entries).flatten.Perm
      ((entries.filter (keep ·.1)).map (·.2)) := by
  have hd : (((firsts keys).filter keep).map identity).Nodup :=
    (nodup_firsts keys).sublist (List.filter_sublist.map _)
  have hany : (entries.filter fun e => ((firsts keys).filter keep).any (e.1 == ·)) =
      entries.filter (keep ·.1) := by
    apply List.filter_congr
    intro e he
    rw [List.any_filter, Bool.eq_iff_iff, List.any_eq_true]
    constructor
    · rintro ⟨key, -, hkey⟩
      obtain ⟨hkept, hsame⟩ := Bool.and_eq_true_iff.mp hkey
      exact (hkeep _ _ hsame).trans hkept
    · intro hkept
      have hfirst : (firsts keys).any (· == e.1) := by
        rw [any_firsts]
        exact List.any_eq_true.mpr ⟨e.1, h e he, BEq.refl _⟩
      obtain ⟨key, hkey, hsame⟩ := List.any_eq_true.mp hfirst
      exact ⟨key, hkey, Bool.and_eq_true_iff.mpr ⟨(hkeep _ _ hsame).trans hkept, BEq.symm hsame⟩⟩
  have hperm := (flatten_filter_perm hd entries).map Prod.snd
  rw [hany, List.map_flatten, List.map_map] at hperm
  exact hperm

end CallWatch.Key

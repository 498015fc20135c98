import CallWatch.Key

namespace CallWatch.Key

-- Each key where it first comes. Later ones equal to it are left out.
def firsts : List Key → List Key
  | [] => []
  | key :: rest => key :: (firsts rest).filter fun other => !(other == key)

-- A property that cannot tell equal keys apart.
def Respects (p : Key → Bool) : Prop :=
  ∀ a b : Key, a == b → p a = p b

theorem beq_of_identity_eq {a b : Key} (h : a.identity = b.identity) : (a == b) = true :=
  beq_iff.mpr h

theorem coarsen_congr {a b : Key} (h : a == b) (detail : Detail) :
    a.coarsen detail == b.coarsen detail := by
  have hidentity := beq_iff.mp h
  simp only [identity, Identity.mk.injEq] at hidentity
  obtain ⟨hendpoint, hthread, hsite⟩ := hidentity
  apply beq_of_identity_eq
  simp only [identity, coarsen, hendpoint, hsite]
  cases detail.byThread with
  | true => simpa [Origin.threadId?] using hthread
  | false => rfl

theorem firsts_sublist (keys : List Key) : (firsts keys).Sublist keys := by
  induction keys with
  | nil => exact .slnil
  | cons key rest ih => exact .cons_cons key (List.filter_sublist.trans ih)

theorem nodup_firsts (keys : List Key) : ((firsts keys).map identity).Nodup := by
  induction keys with
  | nil => exact .nil
  | cons key rest ih =>
      rw [firsts, List.map_cons, List.nodup_cons]
      constructor
      · intro hmem
        obtain ⟨other, ho, he⟩ := List.mem_map.mp hmem
        have hne := (List.mem_filter.mp ho).2
        simp [beq_of_identity_eq he] at hne
      · exact ih.sublist (List.filter_sublist.map _)

theorem any_firsts (key : Key) (keys : List Key) :
    (firsts keys).any (· == key) = keys.any (· == key) := by
  induction keys with
  | nil => rfl
  | cons first rest ih =>
      rw [firsts, List.any_cons, List.any_cons]
      by_cases hf : first == key
      · simp [hf]
      · -- dropping the keys equal to `first` drops none that is equal to `key`
        have hdrop : ((firsts rest).filter fun other => !(other == first)).any (· == key) =
            (firsts rest).any (· == key) := by
          rw [List.any_filter]
          congr 1
          funext other
          by_cases ho : other == key
          · have hne : (other == first) = false := by
              rw [BEq.congr_left ho, BEq.comm]
              exact Bool.of_not_eq_true hf
            simp [ho, hne]
          · simp [ho]
        rw [hdrop, ih]

theorem firsts_concat (keys : List Key) (key : Key) :
    firsts (keys ++ [key]) =
      if keys.any (· == key) then firsts keys else firsts keys ++ [key] := by
  induction keys with
  | nil => rfl
  | cons first rest ih =>
      rw [List.cons_append, firsts, ih, firsts, List.any_cons]
      by_cases hf : first == key
      · have hk : (key == first) = true := BEq.symm hf
        by_cases hr : rest.any (· == key) <;> simp [hf, hr, hk]
      · have hk : (key == first) = false := by rw [BEq.comm]; exact Bool.of_not_eq_true hf
        by_cases hr : rest.any (· == key) <;> simp [hf, hr, hk]

end CallWatch.Key

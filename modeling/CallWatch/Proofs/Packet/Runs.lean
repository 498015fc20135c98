import CallWatch.Proofs.Packet.Joining

namespace CallWatch.Packet

-- The packet that a run of transfers is shown as.
def joined? : List Packet → Option Packet
  | [] => none
  | first :: rest => some (rest.foldl append first)

theorem joined?_concat {run : List Packet} {p : Packet} (h : joined? run = some p)
    (next : Packet) : joined? (run ++ [next]) = some (p.append next) := by
  cases run with
  | nil => cases h
  | cons first rest =>
      rw [← Option.some.inj h, List.cons_append, joined?, List.foldl_append, List.foldl_cons,
        List.foldl_nil]

section

-- Transfers may carry a mark, such as the key that they were captured under.
variable {α : Type}

def joinedRun? (run : List (α × Packet)) : Option Packet :=
  joined? (run.map (·.2))

-- A pending packet stands for the transfers that joined it so far. Every later one goes
-- to its run or begins a run of its own.
theorem exists_runs_absorb (threshold : Span) {run : List (α × Packet)} {pending : Packet}
    (hpending : joinedRun? run = some pending) (rest : List (α × Packet)) :
    ∃ runs : List (List (α × Packet)), runs.flatten = run ++ rest ∧
      runs.map joinedRun? = (absorb threshold pending (rest.map (·.2))).map some := by
  induction rest generalizing run pending with
  | nil =>
      refine ⟨[run], by simp, ?_⟩
      rw [List.map_singleton, hpending]
      rfl
  | cons next rest ih =>
      rw [List.map_cons]
      by_cases hjoins : pending.joins next.2 threshold
      · have hrun : joinedRun? (run ++ [next]) = some (pending.append next.2) := by
          rw [joinedRun?, List.map_append, List.map_singleton]
          exact joined?_concat hpending next.2
        obtain ⟨runs, hflatten, hruns⟩ := ih hrun
        rw [absorb_of_joins hjoins]
        exact ⟨runs, by rw [hflatten, List.append_assoc, List.singleton_append], hruns⟩
      · have hnext : joinedRun? [next] = some next.2 := rfl
        obtain ⟨runs, hflatten, hruns⟩ := ih hnext
        refine ⟨run :: runs, ?_, ?_⟩
        · rw [List.flatten_cons, hflatten, List.singleton_append]
        · rw [absorb_of_not_joins hjoins, List.map_cons, List.map_cons, hpending, hruns]

-- Every packet shown is one run of the transfers, and each transfer is in one run.
theorem exists_runs_coalesce (entries : List (α × Packet)) (threshold : Span) :
    ∃ runs : List (List (α × Packet)), runs.flatten.Perm entries ∧
      runs.map joinedRun? = (coalesce (entries.map (·.2)) threshold).map some := by
  have hsorted : (entries.map (·.2)).mergeSort (fun a b => a.first ≤ b.first) =
      (entries.mergeSort fun a b => a.2.first ≤ b.2.first).map (·.2) := by
    symm
    apply List.map_mergeSort
    intro a _ b _
    rfl
  have hperm := List.mergeSort_perm entries fun a b => a.2.first ≤ b.2.first
  rw [coalesce, hsorted]
  cases hs : entries.mergeSort fun a b => a.2.first ≤ b.2.first with
  | nil =>
      rw [hs] at hperm
      exact ⟨[], hperm, rfl⟩
  | cons first rest =>
      have hfirst : joinedRun? [first] = some first.2 := rfl
      obtain ⟨runs, hflatten, hruns⟩ := exists_runs_absorb threshold hfirst rest
      rw [hs] at hperm
      exact ⟨runs, by rw [hflatten]; exact hperm, hruns⟩

end

end CallWatch.Packet

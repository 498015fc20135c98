import CallWatch.Proofs.Key.Collect

namespace CallWatch

-- The parts of a key that survive both of two groupings.
def Detail.meet (a b : Detail) : Detail where
  byConnection := a.byConnection && b.byConnection
  bySite := a.bySite && b.bySite
  byThread := a.byThread && b.byThread

theorem Endpoint.anyConnection_anyConnection (e : Endpoint) :
    e.anyConnection.anyConnection = e.anyConnection := by
  cases e <;> rfl

namespace Key

theorem coarsen_coarsen (k : Key) (first second : Detail) :
    (k.coarsen first).coarsen second = k.coarsen (first.meet second) := by
  obtain ⟨connection, site, thread⟩ := first
  obtain ⟨connection', site', thread'⟩ := second
  have hendpoint : (if connection' then (if connection then k.endpoint else k.endpoint.anyConnection)
        else (if connection then k.endpoint else k.endpoint.anyConnection).anyConnection) =
      if connection && connection' then k.endpoint else k.endpoint.anyConnection := by
    cases connection <;> cases connection' <;> simp [Endpoint.anyConnection_anyConnection]
  simp only [coarsen, Detail.meet, hendpoint]
  cases site <;> cases site' <;> cases thread <;> cases thread' <;> rfl

section

variable {β : Type} (op : β → β → β)

theorem upsert_append (key : Key) (value : β) (a b : List (Key × β)) :
    upsert op key value (a ++ b) =
      if a.any (·.1 == key) then upsert op key value a ++ b else a ++ upsert op key value b := by
  induction a with
  | nil => rfl
  | cons entry rest ih =>
      rw [List.cons_append, upsert, upsert, List.any_cons]
      by_cases hk : entry.1 == key
      · simp only [hk, if_true, Bool.true_or, List.cons_append]
      · simp only [hk, Bool.false_eq_true, if_false, Bool.false_or, ih]
        split <;> rfl

variable {op} (hassoc : ∀ a b c, op (op a b) c = op a (op b c))

include hassoc in
-- Of two equal keys the second adds to what the first was given.
theorem upsert_upsert {key other : Key} (h : key == other) (value added : β)
    (entries : List (Key × β)) :
    upsert op other added (upsert op key value entries) =
      upsert op key (op value added) entries := by
  induction entries with
  | nil => simp only [upsert, h, if_true]
  | cons entry rest ih =>
      have hsame : (entry.1 == other) = (entry.1 == key) := (BEq.congr_right h).symm
      by_cases hk : entry.1 == key
      · simp only [upsert, hk, hsame, if_true, hassoc]
      · simp only [upsert, hk, hsame, Bool.false_eq_true, if_false, ih]

variable (hcomm : ∀ a b c, op (op a b) c = op (op a c) b)

include hcomm in
-- A key that has its place already may be given a value earlier or later.
theorem upsert_comm {key : Key} {entries : List (Key × β)} (h : entries.any (·.1 == key))
    (value : β) (other : Key) (added : β) :
    upsert op key value (upsert op other added entries) =
      upsert op other added (upsert op key value entries) := by
  induction entries with
  | nil => cases h
  | cons entry rest ih =>
      by_cases hk : entry.1 == key <;> by_cases ho : entry.1 == other
      · simp only [upsert, hk, ho, if_true, hcomm _ added value]
      · simp only [upsert, hk, ho, if_true, Bool.false_eq_true, if_false]
      · simp only [upsert, hk, ho, if_true, Bool.false_eq_true, if_false]
      · rw [List.any_cons, Bool.or_eq_true] at h
        simp only [upsert, hk, ho, Bool.false_eq_true, if_false, ih (h.resolve_left hk)]

variable {f : Key → Key} (hf : ∀ {a b : Key}, a == b → f a == f b)

include hassoc hcomm hf

-- Under coarser keys it makes no difference whether a value is added to the entry of its own
-- key first. The cases are whether that entry is in front of the last one, is the last one,
-- or does not exist yet.
theorem collect_map_upsert (key : Key) (value : β) (entries : List (Key × β)) :
    collect op ((upsert op key value entries).map fun e => (f e.1, e.2)) =
      upsert op (f key) value (collect op (entries.map fun e => (f e.1, e.2))) := by
  induction entries using List.reverseRecOn with
  | nil => rfl
  | append_singleton entries entry ih =>
      rw [upsert_append]
      by_cases hany : entries.any (·.1 == key)
      · have hcollected : (collect op (entries.map fun e => (f e.1, e.2))).any (·.1 == f key) := by
          obtain ⟨e, he, hk⟩ := List.any_eq_true.mp hany
          rw [any_collect, List.any_map]
          exact List.any_eq_true.mpr ⟨e, he, hf hk⟩
        rw [if_pos hany, List.map_append, List.map_singleton, collect_concat, ih, List.map_append,
          List.map_singleton, collect_concat, upsert_comm hcomm hcollected]
      · rw [if_neg hany, upsert, upsert]
        split
        · rename_i hk
          rw [List.map_append, List.map_singleton, collect_concat, List.map_append,
            List.map_singleton, collect_concat, upsert_upsert hassoc (hf hk)]
        · rw [List.map_append, List.map_cons, List.map_singleton, List.append_cons, collect_concat,
            List.map_append, List.map_singleton]

-- Collecting in stages is collecting at once.
theorem collect_map_collect (entries : List (Key × β)) :
    collect op ((collect op entries).map fun e => (f e.1, e.2)) =
      collect op (entries.map fun e => (f e.1, e.2)) := by
  induction entries using List.reverseRecOn with
  | nil => rfl
  | append_singleton entries entry ih =>
      rw [collect_concat, collect_map_upsert hassoc hcomm hf, ih, List.map_append,
        List.map_singleton, collect_concat]

end

end Key

end CallWatch

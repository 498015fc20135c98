import CallWatch.Proofs.Window.Shares

namespace CallWatch

-- The totals of a scope are read off one diff, or taken from the whole.
def ThreadScope.whole : ThreadScope → ThreadScope
  | .any | .others => .any
  | .current => .current

theorem Tally.readSum_filter_not_isZero (c : Tally.Counter) (roll : Roll) :
    Tally.readSum c ((roll.filter fun e => !e.2.isZero).map (·.2)) =
      Tally.readSum c (roll.map (·.2)) := by
  induction roll with
  | nil => rfl
  | cons e rest ih =>
      rw [List.filter_cons]
      split
      · rw [List.map_cons, List.map_cons, Tally.readSum_cons, Tally.readSum_cons, ih]
      · rename_i hzero
        have hnone : e.2 = 0 := by simpa [Tally.isZero] using hzero
        rw [ih, List.map_cons, Tally.readSum_cons, hnone, Tally.read_zero, Nat.zero_add]

theorem Tally.readSum_flatten (c : Tally.Counter) {α : Type} (f : α → Tally) (g : α → List Tally)
    {xs : List α} (h : ∀ x ∈ xs, (f x).read c = Tally.readSum c (g x)) :
    Tally.readSum c (xs.map f) = Tally.readSum c (xs.map g).flatten := by
  induction xs with
  | nil => rfl
  | cons x rest ih =>
      obtain ⟨hx, hrest⟩ := List.forall_mem_cons.mp h
      rw [List.map_cons, List.map_cons, List.flatten_cons, Tally.readSum_cons,
        Tally.readSum_append, hx, ih hrest]

namespace Window

variable {w : Window} {ledger : Ledger}

-- Totals are exact sums of gains for as long as what they are read from is below the limit.
theorem read_totals {scope : ThreadScope} {filter : EndpointFilter} {c : Tally.Counter}
    (h : (w.totals ledger scope.whole filter).read c < Count.limit) :
    (w.totals ledger scope filter).read c =
      Tally.readSum c ((w.gains ledger scope filter).map (·.2)) := by
  cases scope with
  | any =>
      rw [ThreadScope.whole, totals_any, Tally.read_sum] at h
      rw [totals_any, Tally.read_sum]
      omega
  | current =>
      rw [ThreadScope.whole, totals_current, Tally.read_sum] at h
      rw [totals_current, Tally.read_sum]
      omega
  | others =>
      have hsum := w.readSum_current_add_others ledger filter c
      rw [ThreadScope.whole, totals_any, Tally.read_sum] at h
      rw [totals_others, totals_any, totals_current, Tally.read_sub, Tally.read_sum,
        Tally.read_sum]
      omega

variable {old later : List (Key × Tally)} {captured : List (Key × Packet)}

-- A counter of a ledger that is below the limit tells exactly what was recorded.
theorem readSum_lt_limit (hledger : ledger.Keeps (old ++ later)) {c : Tally.Counter}
    (h : ∀ key amount, ledger.amountOf? key = some amount → amount.read c < Count.limit)
    {key : Key} (hkey : key ∈ (old ++ later).map (·.1)) :
    Tally.readSum c (Key.valuesOf key (old ++ later)) < Count.limit := by
  obtain ⟨e, he, rfl⟩ := List.mem_map.mp hkey
  have hany : (old ++ later).any (·.1 == e.1) := List.any_eq_true.mpr ⟨e, he, BEq.refl _⟩
  have hread := h e.1 _ ((hledger.amountOf?_eq e.1).trans
    ((Roll.lookup_ofList _ _).trans (if_pos hany)))
  rw [Tally.read_sum] at hread
  omega

theorem read_lt_limit (hledger : ledger.Keeps (old ++ later)) {c : Tally.Counter}
    (h : ∀ key amount, ledger.amountOf? key = some amount → amount.read c < Count.limit)
    {e : Key × Tally} (he : e ∈ old ++ later) : e.2.read c < Count.limit := by
  have hown : e ∈ (old ++ later).filter (·.1 == e.1) :=
    List.mem_filter.mpr ⟨he, BEq.refl e.1⟩
  have hle := Tally.readSum_sublist_le c
    (List.singleton_sublist.mpr (List.mem_map_of_mem (f := Prod.snd) hown))
  rw [Tally.readSum_cons, Tally.readSum_nil] at hle
  exact Nat.lt_of_le_of_lt hle (readSum_lt_limit hledger h (List.mem_map_of_mem he))

-- Together the keys of a window gained what was recorded later for the keys it shows.
theorem readSum_gains (hledger : ledger.Keeps (old ++ later)) (hw : w.Recalls old captured)
    {c : Tally.Counter}
    (h : ∀ key amount, ledger.amountOf? key = some amount → amount.read c < Count.limit)
    (scope : ThreadScope) (filter : EndpointFilter) :
    Tally.readSum c ((w.gains ledger scope filter).map (·.2)) =
      Tally.readSum c ((later.filter (w.shows scope filter ·.1)).map (·.2)) := by
  have hgain : ∀ key ∈ (Key.firsts ((old ++ later).map (·.1))).filter (w.shows scope filter),
      (Tally.sum (Key.valuesOf key (old ++ later)) - Tally.sum (Key.valuesOf key old)).read c =
        Tally.readSum c (Key.valuesOf key later) := by
    intro key hkey
    have hfirst := (Key.firsts_sublist _).mem (List.mem_filter.mp hkey).1
    have hlimit := readSum_lt_limit hledger h hfirst
    rw [Key.valuesOf_append, Tally.readSum_append] at hlimit
    rw [Tally.read_sub, Tally.read_sum, Tally.read_sum, Key.valuesOf_append, Tally.readSum_append]
    omega
  have hkeys : ∀ e ∈ later, e.1 ∈ (old ++ later).map (·.1) := fun e he =>
    List.mem_map_of_mem (List.mem_append_right old he)
  have hperm := Key.flatten_valuesOf_firsts_perm (w.respects_shows scope filter) hkeys
  rw [gains_eq_map hledger hw, Tally.readSum_filter_not_isZero, List.map_map,
    ← Tally.readSum_perm c hperm]
  exact Tally.readSum_flatten c _ _ hgain

-- If all that is recorded stays below the limit, no counter can reach it.
theorem amountOf?_lt_limit {amounts : List (Key × Tally)} (hledger : ledger.Keeps amounts)
    {c : Tally.Counter} (h : Tally.readSum c (amounts.map (·.2)) < Count.limit) :
    ∀ key amount, ledger.amountOf? key = some amount → amount.read c < Count.limit := by
  intro key amount hamount
  have hread := hledger.agrees.amount key amount hamount c
  have hle : Tally.readSum c (Key.valuesOf key amounts) ≤ Tally.readSum c (amounts.map (·.2)) :=
    Tally.readSum_sublist_le c (List.filter_sublist.map _)
  omega

theorem totals_lt_limit (hledger : ledger.Keeps (old ++ later)) (hw : w.Recalls old captured)
    {c : Tally.Counter} (h : Tally.readSum c ((old ++ later).map (·.2)) < Count.limit)
    (scope : ThreadScope) (filter : EndpointFilter) :
    (w.totals ledger scope.whole filter).read c < Count.limit := by
  have hgains := readSum_gains hledger hw (amountOf?_lt_limit hledger h) scope.whole filter
  have hle : Tally.readSum c ((later.filter (w.shows scope.whole filter ·.1)).map (·.2)) ≤
      Tally.readSum c (later.map (·.2)) :=
    Tally.readSum_sublist_le c (List.filter_sublist.map _)
  have htotal : w.totals ledger scope.whole filter =
      Tally.sum ((w.gains ledger scope.whole filter).map (·.2)) := by
    cases scope <;> exact w.total_diff ledger _ filter .endpointOnly
  rw [List.map_append, Tally.readSum_append] at h
  rw [htotal, Tally.read_sum]
  omega

end Window

end CallWatch

import CallWatch.Tally

namespace CallWatch.Tally

-- The counters of a tally by name, so that what holds of each is said once.
inductive Counter where
  | calls
  | nanos
  | rows
  | bytesDown
  | bytesUp
deriving DecidableEq

def read (t : Tally) : Counter → Nat
  | .calls => t.calls.toNat
  | .nanos => t.nanos.toNat
  | .rows => t.rows.toNat
  | .bytesDown => t.bytesDown.toNat
  | .bytesUp => t.bytesUp.toNat

def ofReads (f : Counter → Nat) : Tally :=
  ⟨.clamp (f .calls), .clamp (f .nanos), .clamp (f .rows), .clamp (f .bytesDown),
    .clamp (f .bytesUp)⟩

-- What several tallies come to at one counter when nothing is clamped.
def readSum (c : Counter) : List Tally → Nat
  | [] => 0
  | t :: ts => t.read c + readSum c ts

theorem ext_read {a b : Tally} (h : ∀ c, a.read c = b.read c) : a = b :=
  Tally.ext (Count.ext (h .calls)) (Count.ext (h .nanos)) (Count.ext (h .rows))
    (Count.ext (h .bytesDown)) (Count.ext (h .bytesUp))

theorem read_le_limit (t : Tally) (c : Counter) : t.read c ≤ Count.limit := by
  cases c <;> exact Count.le_limit _

@[simp]
theorem read_zero (c : Counter) : (0 : Tally).read c = 0 := by
  cases c <;> rfl

@[simp]
theorem read_add (a b : Tally) (c : Counter) :
    (a + b).read c = min (a.read c + b.read c) Count.limit := by
  cases c <;> rfl

@[simp]
theorem read_sub (a b : Tally) (c : Counter) : (a - b).read c = a.read c - b.read c := by
  cases c <;> rfl

@[simp]
theorem read_ofReads (f : Counter → Nat) (c : Counter) :
    (ofReads f).read c = min (f c) Count.limit := by
  cases c <;> rfl

protected theorem add_right_comm (a b c : Tally) : a + b + c = a + c + b := by
  apply ext_read
  intro counter
  simp only [read_add]
  omega

protected theorem add_assoc (a b c : Tally) : a + b + c = a + (b + c) := by
  apply ext_read
  intro counter
  simp only [read_add]
  omega

protected theorem zero_add (a : Tally) : 0 + a = a := by
  apply ext_read
  intro counter
  have h := a.read_le_limit counter
  simp only [read_add, read_zero]
  omega

protected theorem sub_zero (a : Tally) : a - 0 = a := by
  apply ext_read
  simp

@[simp]
theorem readSum_nil (c : Counter) : readSum c [] = 0 := rfl

@[simp]
theorem readSum_cons (c : Counter) (t : Tally) (ts : List Tally) :
    readSum c (t :: ts) = t.read c + readSum c ts := rfl

@[simp]
theorem readSum_append (c : Counter) (ts us : List Tally) :
    readSum c (ts ++ us) = readSum c ts + readSum c us := by
  induction ts with
  | nil => simp
  | cons t ts ih =>
      rw [List.cons_append, readSum_cons, ih, readSum_cons]
      omega

theorem readSum_perm (c : Counter) {ts us : List Tally} (h : ts.Perm us) :
    readSum c ts = readSum c us := by
  induction h with
  | nil => rfl
  | cons t h ih => rw [readSum_cons, readSum_cons, ih]
  | swap t u ts =>
      simp only [readSum_cons]
      omega
  | trans h₁ h₂ ih₁ ih₂ => exact ih₁.trans ih₂

theorem readSum_sublist_le (c : Counter) {ts us : List Tally} (h : ts.Sublist us) :
    readSum c ts ≤ readSum c us := by
  induction h with
  | slnil => exact Nat.le_refl _
  | cons t h ih => exact Nat.le_trans ih (Nat.le_add_left _ _)
  | cons_cons t h ih => exact Nat.add_le_add_left ih _

-- Amounts that are clamped one after another come to what one clamp of their
-- exact sum gives, wherever the running total reached the limit.
theorem read_foldl_add (c : Counter) (ts : List Tally) (start : Tally) :
    (ts.foldl (· + ·) start).read c = min (start.read c + readSum c ts) Count.limit := by
  induction ts generalizing start with
  | nil =>
      have h := start.read_le_limit c
      simp only [List.foldl_nil, readSum_nil]
      omega
  | cons t ts ih =>
      simp only [List.foldl_cons, ih, read_add, readSum_cons]
      omega

theorem read_sum (c : Counter) (ts : List Tally) :
    (sum ts).read c = min (readSum c ts) Count.limit := by
  simp [sum, read_foldl_add]

theorem sum_cons (t : Tally) (ts : List Tally) : sum (t :: ts) = t + sum ts := by
  apply ext_read
  intro c
  simp only [read_sum, read_add, readSum_cons]
  omega

theorem sum_concat (ts : List Tally) (t : Tally) : sum (ts ++ [t]) = sum ts + t := by
  simp [sum]

theorem sum_perm {ts us : List Tally} (h : ts.Perm us) : sum ts = sum us := by
  apply ext_read
  intro c
  rw [read_sum, read_sum, readSum_perm c h]

end CallWatch.Tally

namespace CallWatch

-- Counters are 64-bit words that stop at the greatest one instead of wrapping.
def Count.limit : Nat :=
  18446744073709551615

structure Count where
  toNat : Nat
  le_limit : toNat ≤ Count.limit
deriving DecidableEq

namespace Count

def clamp (n : Nat) : Count :=
  ⟨min n limit, Nat.min_le_right n limit⟩

def ofNat? (n : Nat) : Option Count :=
  if h : n ≤ limit then some ⟨n, h⟩ else none

def greatest : Count :=
  ⟨limit, Nat.le_refl limit⟩

instance : Zero Count :=
  ⟨⟨0, Nat.zero_le limit⟩⟩

instance : One Count :=
  ⟨⟨1, by decide⟩⟩

instance : Inhabited Count :=
  ⟨0⟩

instance : Add Count :=
  ⟨fun a b => clamp (a.toNat + b.toNat)⟩

instance : Sub Count :=
  ⟨fun a b => ⟨a.toNat - b.toNat, Nat.le_trans (Nat.sub_le _ _) a.le_limit⟩⟩

instance : LE Count :=
  ⟨fun a b => a.toNat ≤ b.toNat⟩

instance : LT Count :=
  ⟨fun a b => a.toNat < b.toNat⟩

instance (a b : Count) : Decidable (a ≤ b) :=
  inferInstanceAs (Decidable (a.toNat ≤ b.toNat))

instance (a b : Count) : Decidable (a < b) :=
  inferInstanceAs (Decidable (a.toNat < b.toNat))

@[ext]
theorem ext {a b : Count} (h : a.toNat = b.toNat) : a = b := by
  cases a; cases b; cases h; rfl

@[simp]
theorem toNat_zero : (0 : Count).toNat = 0 := rfl

@[simp]
theorem toNat_one : (1 : Count).toNat = 1 := rfl

@[simp]
theorem toNat_clamp (n : Nat) : (clamp n).toNat = min n limit := rfl

@[simp]
theorem toNat_add (a b : Count) : (a + b).toNat = min (a.toNat + b.toNat) limit := rfl

@[simp]
theorem toNat_sub (a b : Count) : (a - b).toNat = a.toNat - b.toNat := rfl

@[simp]
theorem ofNat?_toNat (a : Count) : ofNat? a.toNat = some a := by
  have h : a.toNat ≤ limit := a.le_limit
  simp [ofNat?, h]

end Count

end CallWatch

import CallWatch.Proofs.Packet.Joining

namespace CallWatch.Packet

-- How many bytes packets carry one way.
def volume (direction : Direction) : List Packet → Nat
  | [] => 0
  | p :: rest => (if p.direction = direction then p.bytes.length else 0) + volume direction rest

variable (direction : Direction)

@[simp]
theorem volume_nil : volume direction [] = 0 := rfl

@[simp]
theorem volume_cons (p : Packet) (rest : List Packet) :
    volume direction (p :: rest) =
      (if p.direction = direction then p.bytes.length else 0) + volume direction rest := rfl

@[simp]
theorem volume_append (a b : List Packet) :
    volume direction (a ++ b) = volume direction a + volume direction b := by
  induction a with
  | nil => simp
  | cons p rest ih =>
      rw [List.cons_append, volume_cons, ih, volume_cons]
      omega

theorem volume_perm {a b : List Packet} (h : a.Perm b) :
    volume direction a = volume direction b := by
  induction h with
  | nil => rfl
  | cons p h ih => rw [volume_cons, volume_cons, ih]
  | swap p q rest =>
      simp only [volume_cons]
      omega
  | trans h₁ h₂ ih₁ ih₂ => exact ih₁.trans ih₂

-- Packets are joined only if they go the same way, so that joining them loses no byte
-- of either direction.
theorem volume_append_of_joins {p next : Packet} {threshold : Span}
    (h : p.joins next threshold) (rest : List Packet) :
    volume direction (p.append next :: rest) = volume direction (p :: next :: rest) := by
  have hsame := (joins_iff.mp h).1
  by_cases hp : p.direction = direction
  · have hnext : next.direction = direction := hsame.symm.trans hp
    simp [append, hp, hnext, Nat.add_assoc]
  · have hnext : next.direction ≠ direction := fun he => hp (hsame.trans he)
    simp [append, hp, hnext]

theorem volume_absorb (threshold : Span) (pending : Packet) (rest : List Packet) :
    volume direction (absorb threshold pending rest) = volume direction (pending :: rest) := by
  induction rest generalizing pending with
  | nil => rfl
  | cons next rest ih =>
      by_cases hjoins : pending.joins next threshold
      · rw [absorb_of_joins hjoins, ih, volume_append_of_joins direction hjoins]
      · rw [absorb_of_not_joins hjoins, volume_cons, ih, volume_cons direction pending]

theorem volume_coalesce (packets : List Packet) (threshold : Span) :
    volume direction (coalesce packets threshold) = volume direction packets := by
  have hperm := volume_perm direction (List.mergeSort_perm packets fun a b => a.first ≤ b.first)
  rw [coalesce]
  cases hs : packets.mergeSort fun a b => a.first ≤ b.first with
  | nil =>
      rw [hs] at hperm
      exact hperm
  | cons first rest =>
      rw [hs] at hperm
      exact (volume_absorb direction threshold first rest).trans hperm

end CallWatch.Packet

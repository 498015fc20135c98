namespace CallWatch.Text

-- Lower case, as far as ASCII letters can come of it: besides A to Z only the
-- dotted capital I (to i and a combining dot) and the Kelvin sign (to k) have an
-- ASCII letter in their lower case. Every other character stands for itself,
-- which no comparison with ASCII text can tell from its lower case.
def lower (c : Char) : List Char :=
  if 'A' ≤ c ∧ c ≤ 'Z' then [Char.ofNat (c.toNat + 32)]
  else if c.toNat = 0x130 then ['i', Char.ofNat 0x307]
  else if c.toNat = 0x212A then ['k']
  else [c]

def lowerAll (cs : List Char) : List Char :=
  cs.flatMap lower

end CallWatch.Text

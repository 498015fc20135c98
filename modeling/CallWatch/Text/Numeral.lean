namespace CallWatch.Text

-- Decimal numerals: how a number is written, and which texts are read as one.

def digit (n : Nat) : Char :=
  Char.ofNat (48 + n)

def digits (n : Nat) : List Char :=
  if n < 10 then [digit n] else digits (n / 10) ++ [digit (n % 10)]

def digitValue (c : Char) : Nat :=
  c.toNat - 48

def valueOf (cs : List Char) : Nat :=
  cs.foldl (fun n c => n * 10 + digitValue c) 0

-- A run of ASCII digits, leading zeros allowed. No digit at all is no numeral.
def readDigits? (cs : List Char) : Option Nat :=
  if cs ≠ [] ∧ cs.all Char.isDigit then some (valueOf cs) else none

-- An unsigned numeral may carry a plus sign and must not exceed `limit`.
def readNat? (limit : Nat) (cs : List Char) : Option Nat :=
  let body := match cs with
    | '+' :: rest => rest
    | _ => cs
  (readDigits? body).filter (· ≤ limit)

-- A signed numeral may carry either sign and must lie between the limits.
def readInt? (lower upper : Int) (cs : List Char) : Option Int :=
  let value := match cs with
    | '+' :: rest => (readDigits? rest).map Int.ofNat
    | '-' :: rest => (readDigits? rest).map fun n => -Int.ofNat n
    | _ => (readDigits? cs).map Int.ofNat
  value.filter fun i => lower ≤ i ∧ i ≤ upper

def writeInt (i : Int) : List Char :=
  if i < 0 then '-' :: digits i.natAbs else digits i.natAbs

def showNat (n : Nat) : String :=
  String.ofList (digits n)

def showInt (i : Int) : String :=
  String.ofList (writeInt i)

end CallWatch.Text

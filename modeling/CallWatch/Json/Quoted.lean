import CallWatch.Json.Reader

namespace CallWatch.Json.Quoted

-- Strings, read from behind their opening quote.

def escaped? : Char → Option Char
  | '"' => some '"'
  | '\\' => some '\\'
  | '/' => some '/'
  | 'b' => some (Char.ofNat 8)
  | 'f' => some (Char.ofNat 12)
  | 'n' => some '\n'
  | 'r' => some '\r'
  | 't' => some '\t'
  | _ => none

def hexDigit? (c : Char) : Option Nat :=
  if c.isDigit then some (c.toNat - 48)
  else if 'a' ≤ c ∧ c ≤ 'f' then some (c.toNat - 87)
  else if 'A' ≤ c ∧ c ≤ 'F' then some (c.toNat - 55)
  else none

def unit? (a b c d : Char) : Option Nat := do
  let a ← hexDigit? a
  let b ← hexDigit? b
  let c ← hexDigit? c
  let d ← hexDigit? d
  pure (((a * 16 + b) * 16 + c) * 16 + d)

def isHigh (n : Nat) : Bool :=
  0xD800 ≤ n && n ≤ 0xDBFF

def isLow (n : Nat) : Bool :=
  0xDC00 ≤ n && n ≤ 0xDFFF

def pair (high low : Nat) : Char :=
  Char.ofNat (0x10000 + (high - 0xD800) * 0x400 + (low - 0xDC00))

-- Where four hex digits are needed, four bytes are looked at.
def badUnit (cs : List Char) : Defect :=
  if (String.ofList cs).utf8ByteSize < 4 then .ended else .malformed

def cons (c : Char) (r : Except Defect (List Char × List Char)) :
    Except Defect (List Char × List Char) :=
  r.map fun (text, rest) => (c :: text, rest)

-- Control characters must be escaped, and surrogates must come in pairs.
def body : List Char → Except Defect (List Char × List Char)
  | [] => .error .ended
  | c :: rest =>
      if c = '"' then .ok ([], rest)
      else if c.toNat < 0x20 then .error .malformed
      else if c ≠ '\\' then cons c (body rest)
      else match rest with
        | [] => .error .ended
        | s :: rest =>
            if s ≠ 'u' then
              match escaped? s with
              | some c => cons c (body rest)
              | none => .error .malformed
            else match rest with
              | x₁ :: x₂ :: x₃ :: x₄ :: after =>
                  match unit? x₁ x₂ x₃ x₄ with
                  | none => .error (badUnit rest)
                  | some n =>
                      if isLow n then .error .malformed
                      else if isHigh n then
                        match after with
                        | [] | ['\\'] => .error .ended
                        | '\\' :: 'u' :: y₁ :: y₂ :: y₃ :: y₄ :: last =>
                            match unit? y₁ y₂ y₃ y₄ with
                            | none => .error (badUnit (y₁ :: y₂ :: y₃ :: y₄ :: last))
                            | some m =>
                                if isLow m then cons (pair n m) (body last)
                                else .error .malformed
                        | '\\' :: 'u' :: few => .error (badUnit few)
                        | _ => .error .malformed
                      else cons (Char.ofNat n) (body after)
              | few => .error (badUnit few)

def read : Reader (List Char) :=
  body

-- A string that is passed over may hold surrogates in any order.
def skipBody : List Char → Except Defect (List Char)
  | [] => .error .ended
  | c :: rest =>
      if c = '"' then .ok rest
      else if c.toNat < 0x20 then .error .malformed
      else if c ≠ '\\' then skipBody rest
      else match rest with
        | [] => .error .ended
        | s :: rest =>
            if s ≠ 'u' then
              match escaped? s with
              | some _ => skipBody rest
              | none => .error .malformed
            else match rest with
              | x₁ :: x₂ :: x₃ :: x₄ :: after =>
                  match unit? x₁ x₂ x₃ x₄ with
                  | none => .error (badUnit rest)
                  | some _ => skipBody after
              | few => .error (badUnit few)

def skip : Reader Unit :=
  fun cs => (skipBody cs).map fun rest => ((), rest)

end CallWatch.Json.Quoted

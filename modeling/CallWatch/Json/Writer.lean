import CallWatch.Text.Numeral

namespace CallWatch.Json.Writer

-- Values written without a blank. Members stand in the order given.

def hexDigit (n : Nat) : Char :=
  if n < 10 then Char.ofNat (48 + n) else Char.ofNat (87 + n)

-- Quotes, backslashes and control characters are escaped, those with a short escape
-- by it. Everything else stands for itself.
def escape (c : Char) : List Char :=
  if c = '"' then ['\\', '"']
  else if c = '\\' then ['\\', '\\']
  else if c = '\n' then ['\\', 'n']
  else if c = '\r' then ['\\', 'r']
  else if c = '\t' then ['\\', 't']
  else if c.toNat = 8 then ['\\', 'b']
  else if c.toNat = 12 then ['\\', 'f']
  else if c.toNat < 0x20 then
    ['\\', 'u', '0', '0', hexDigit (c.toNat / 16), hexDigit (c.toNat % 16)]
  else [c]

def text (cs : List Char) : List Char :=
  '"' :: cs.flatMap escape ++ ['"']

def string (s : String) : List Char :=
  text s.toList

def bool (b : Bool) : List Char :=
  if b then "true".toList else "false".toList

def natural (n : Nat) : List Char :=
  Text.digits n

def integer (i : Int) : List Char :=
  Text.writeInt i

def separated (parts : List (List Char)) : List Char :=
  [','].intercalate parts

def array (items : List (List Char)) : List Char :=
  '[' :: separated items ++ [']']

def object (members : List (String × List Char)) : List Char :=
  '\x7b' :: separated (members.map fun (name, value) => string name ++ ':' :: value) ++ ['\x7d']

end CallWatch.Json.Writer

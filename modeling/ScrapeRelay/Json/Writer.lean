import ScrapeRelay.Decimal.Layout
import ScrapeRelay.Json
import ScrapeRelay.Text.Quoted

/-!
Writing JSON texts without spaces. Only quotes, backslashes and control characters are escaped.
-/

namespace ScrapeRelay.Json

/-- Plain between `1e-5` and `1e16`, with a point always; otherwise with a signed exponent. -/
def realLayout : Decimal.Layout := ⟨.even, fun point => -5 < point && point ≤ 16, true⟩

def escape (c : Char) : List Char :=
  if c = '"' then ['\\', '"']
  else if c = '\\' then ['\\', '\\']
  else if c = '\x08' then ['\\', 'b']
  else if c = '\x0c' then ['\\', 'f']
  else if c = '\n' then ['\\', 'n']
  else if c = '\r' then ['\\', 'r']
  else if c = '\t' then ['\\', 't']
  else if c.toNat < 32 then ['\\', 'u', '0', '0', Text.hexDigit (c.toNat / 16), Text.hexDigit (c.toNat % 16)]
  else [c]

def writeString (s : List Char) : List Char := '"' :: s.flatMap escape ++ ['"']

def writeInt (n : Int) : List Char :=
  if n < 0 then '-' :: Decimal.numeral n.natAbs else Decimal.numeral n.natAbs

def writeNumber : Number → List Char
  | .int n => writeInt n
  | .real x => realLayout.render x

mutual

def write : Json → List Char
  | null => ['n', 'u', 'l', 'l']
  | bool true => ['t', 'r', 'u', 'e']
  | bool false => ['f', 'a', 'l', 's', 'e']
  | num n => writeNumber n
  | str s => writeString s.toList
  | arr items => '[' :: writeItems items ++ [']']
  | obj members => '\x7b' :: writeMembers members ++ ['\x7d']

def writeItems : List Json → List Char
  | [] => []
  | [j] => write j
  | j :: rest => write j ++ ',' :: writeItems rest

def writeMembers : List (String × Json) → List Char
  | [] => []
  | [(name, j)] => writeString name.toList ++ ':' :: write j
  | (name, j) :: rest => writeString name.toList ++ ':' :: write j ++ ',' :: writeMembers rest

end

def text (j : Json) : String := String.ofList j.write

end ScrapeRelay.Json

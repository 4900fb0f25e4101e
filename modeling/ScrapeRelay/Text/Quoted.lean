import ScrapeRelay.Text.Unprintable

/-!
Quoted texts and characters in messages: the delimiter and the backslash behind a backslash, the
usual letters for tab, line end and the zero character, and unprintable characters by number.
-/

namespace ScrapeRelay.Text

def hexDigit (n : Nat) : Char := if n < 10 then Char.ofNat (48 + n) else Char.ofNat (87 + n)

def hex (n : Nat) : List Char := if n < 16 then [hexDigit n] else hex (n / 16) ++ [hexDigit (n % 16)]

def spell (q c : Char) : List Char :=
  if c = '\x00' then ['\\', '0']
  else if c = '\t' then ['\\', 't']
  else if c = '\r' then ['\\', 'r']
  else if c = '\n' then ['\\', 'n']
  else if c = '\\' ∨ c = q then ['\\', c]
  else if isUnprintable c then '\\' :: 'u' :: '\x7b' :: hex c.toNat ++ ['\x7d']
  else [c]

def quote (s : List Char) : List Char := '"' :: s.flatMap (spell '"') ++ ['"']

def quoteChar (c : Char) : List Char := '\'' :: spell '\'' c ++ ['\'']

def quoted (s : List Char) : String := String.ofList (quote s)
def quotedChar (c : Char) : String := String.ofList (quoteChar c)

end ScrapeRelay.Text

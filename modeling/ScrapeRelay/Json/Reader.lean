import ScrapeRelay.Decimal
import ScrapeRelay.Json

/-!
Reading JSON texts. Numbers that do not fit a 64-bit word become floating-point numbers; control
characters inside strings, lone surrogates and numbers beyond the floating-point range are refused.
-/

namespace ScrapeRelay.Json

open Decimal (isDigit)

def isSpace (c : Char) : Bool := c == ' ' || c == '\n' || c == '\r' || c == '\t'

def skip (s : List Char) : List Char := s.dropWhile isSpace

def hexValue? (c : Char) : Option Nat :=
  if isDigit c then some (c.toNat - 48)
  else if 'a' ≤ c ∧ c ≤ 'f' then some (c.toNat - 87)
  else if 'A' ≤ c ∧ c ≤ 'F' then some (c.toNat - 55)
  else none

def unit? : List Char → Option (Nat × List Char)
  | a :: b :: c :: d :: rest => do
    let a ← hexValue? a
    let b ← hexValue? b
    let c ← hexValue? c
    let d ← hexValue? d
    some (a * 4096 + b * 256 + c * 16 + d, rest)
  | _ => none

/-- What stands behind `\u`: a character of the basic plane or a pair of surrogates. -/
def codePoint? (s : List Char) : Option (Char × List Char) := do
  let (n, s) ← unit? s
  if 0xDC00 ≤ n ∧ n < 0xE000 then none
  else if 0xD800 ≤ n ∧ n < 0xDC00 then
    match s with
    | '\\' :: 'u' :: s => do
      let (low, s) ← unit? s
      if 0xDC00 ≤ low ∧ low < 0xE000 then
        some (Char.ofNat (0x10000 + (n - 0xD800) * 0x400 + (low - 0xDC00)), s)
      else none
    | _ => none
  else some (Char.ofNat n, s)

def escaped? : List Char → Option (Char × List Char)
  | '"' :: s => some ('"', s)
  | '\\' :: s => some ('\\', s)
  | '/' :: s => some ('/', s)
  | 'b' :: s => some ('\x08', s)
  | 'f' :: s => some ('\x0c', s)
  | 'n' :: s => some ('\n', s)
  | 'r' :: s => some ('\r', s)
  | 't' :: s => some ('\t', s)
  | 'u' :: s => codePoint? s
  | _ => none

def characters : Nat → List Char → Option (List Char × List Char)
  | 0, _ => none
  | _ + 1, [] => none
  | fuel + 1, c :: s =>
    if c = '"' then some ([], s)
    else if c = '\\' then do
      let (c, s) ← escaped? s
      let (cs, s) ← characters fuel s
      some (c :: cs, s)
    else if c.toNat < 32 then none
    else do
      let (cs, s) ← characters fuel s
      some (c :: cs, s)

def minus : List Char → List Char × List Char
  | '-' :: s => (['-'], s)
  | s => ([], s)

def plusOrMinus : List Char → List Char × List Char
  | '-' :: s => (['-'], s)
  | '+' :: s => (['+'], s)
  | s => ([], s)

def fraction? : List Char → Option (List Char × List Char)
  | '.' :: s =>
    let ds := s.takeWhile isDigit
    if ds.isEmpty then none else some ('.' :: ds, s.dropWhile isDigit)
  | s => some ([], s)

def exponent? : List Char → Option (List Char × List Char)
  | [] => some ([], [])
  | c :: s =>
    if c = 'e' ∨ c = 'E' then
      let (sign, s) := plusOrMinus s
      let ds := s.takeWhile isDigit
      if ds.isEmpty then none else some (c :: sign ++ ds, s.dropWhile isDigit)
    else some ([], c :: s)

def numeral? (s : List Char) : Option (Bool × List Char × List Char) := do
  let (sign, s) := minus s
  let whole := s.takeWhile isDigit
  if whole.isEmpty || (whole.head? == some '0' && whole.length != 1) then none
  else
    let (fraction, s) ← fraction? (s.dropWhile isDigit)
    let (exponent, s) ← exponent? s
    some (fraction.isEmpty && exponent.isEmpty, sign ++ whole ++ fraction ++ exponent, s)

def ofNumeral? (whole : Bool) (numeral : List Char) : Option Number := do
  let d ← Decimal.read? numeral
  let n : Int := if d.negative then -(d.digits : Int) else d.digits
  if whole ∧ -0x8000000000000000 ≤ n ∧ n < 0x10000000000000000 ∧ ¬(d.negative ∧ d.digits = 0) then
    some (.int n)
  else
    let x := d.toFloat
    if x.isFinite then some (.real x) else none

def literal? (word : List Char) (j : Json) (s : List Char) : Option (Json × List Char) :=
  if s.take word.length = word then some (j, s.drop word.length) else none

mutual

/-- One value; `depth` more levels of nesting are allowed. -/
def value : Nat → Nat → List Char → Option (Json × List Char)
  | 0, _, _ => none
  | fuel + 1, depth, s =>
    match skip s with
    | [] => none
    | c :: rest =>
      if c = 'n' then literal? ['u', 'l', 'l'] .null rest
      else if c = 't' then literal? ['r', 'u', 'e'] (.bool true) rest
      else if c = 'f' then literal? ['a', 'l', 's', 'e'] (.bool false) rest
      else if c = '"' then do
        let (cs, rest) ← characters (rest.length + 1) rest
        some (.str (String.ofList cs), rest)
      else if c = '[' then
        match depth, skip rest with
        | 0, _ => none
        | _ + 1, ']' :: rest => some (.arr [], rest)
        | depth + 1, rest => do
          let (items, rest) ← elements fuel depth rest
          some (.arr items, rest)
      else if c = '\x7b' then
        match depth, skip rest with
        | 0, _ => none
        | depth + 1, d :: rest =>
          if d = '\x7d' then some (.obj [], rest)
          else do
            let (fields, rest) ← members fuel depth (d :: rest)
            some (.obj fields, rest)
        | _ + 1, [] => none
      else do
        let (whole, numeral, rest) ← numeral? (c :: rest)
        let n ← ofNumeral? whole numeral
        some (.num n, rest)

def elements : Nat → Nat → List Char → Option (List Json × List Char)
  | 0, _, _ => none
  | fuel + 1, depth, s => do
    let (item, s) ← value fuel depth s
    match skip s with
    | ',' :: s => do
      let (items, s) ← elements fuel depth s
      some (item :: items, s)
    | ']' :: s => some ([item], s)
    | _ => none

def members : Nat → Nat → List Char → Option (List (String × Json) × List Char)
  | 0, _, _ => none
  | fuel + 1, depth, s =>
    match skip s with
    | '"' :: s => do
      let (name, s) ← characters (s.length + 1) s
      match skip s with
      | ':' :: s => do
        let (item, s) ← value fuel depth s
        match skip s with
        | c :: s =>
          if c = ',' then do
            let (fields, s) ← members fuel depth s
            some ((String.ofList name, item) :: fields, s)
          else if c = '\x7d' then some ([(String.ofList name, item)], s)
          else none
        | [] => none
      | _ => none
    | _ => none

end

def maxDepth : Nat := 127

def read? (s : List Char) : Option Json := do
  let (j, rest) ← value (s.length + 1) maxDepth s
  if (skip rest).isEmpty then some j else none

end ScrapeRelay.Json

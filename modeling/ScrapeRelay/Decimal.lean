/-!
Decimal numbers and how they are read. A numeral is an optional sign, digits with an optional point
and at least one digit, and an optional exponent; `toFloat` takes the nearest floating-point number.
-/

namespace ScrapeRelay

/-- `± digits · 10 ^ exponent`. -/
structure Decimal where
  negative : Bool
  digits : Nat
  exponent : Int
  deriving DecidableEq, Repr

namespace Decimal

def isDigit (c : Char) : Bool := '0' ≤ c && c ≤ '9'

def digitValue (c : Char) : Nat := c.toNat - 48

def value (s : List Char) : Nat := s.foldl (fun n c => 10 * n + digitValue c) 0

def splitSign : List Char → Bool × List Char
  | '-' :: rest => (true, rest)
  | '+' :: rest => (false, rest)
  | s => (false, s)

def readExponent? : List Char → Option Int
  | [] => some 0
  | c :: rest =>
    if c = 'e' ∨ c = 'E' then
      let (negative, ds) := splitSign rest
      if ds.isEmpty || !ds.all isDigit then none
      else some (if negative then -(value ds : Int) else value ds)
    else none

def read? (s : List Char) : Option Decimal :=
  let (negative, s) := splitSign s
  let whole := s.takeWhile isDigit
  let rest := s.dropWhile isDigit
  let (fraction, rest) :=
    match rest with
    | '.' :: more => (more.takeWhile isDigit, more.dropWhile isDigit)
    | more => ([], more)
  if whole.isEmpty && fraction.isEmpty then none
  else (readExponent? rest).map fun e => ⟨negative, value (whole ++ fraction), e - fraction.length⟩

/-- The nearest floating-point number; far outside the range no power of ten is computed. -/
def magnitude (digits : Nat) (exponent : Int) : Float :=
  if digits = 0 then 0
  else if 400 < exponent then Float.ofScientific 1 false 400
  else if exponent + digits.log2 + 1 < -400 then 0
  else if exponent < 0 then Float.ofScientific digits true exponent.natAbs
  else Float.ofScientific digits false exponent.natAbs

def toFloat (d : Decimal) : Float :=
  if d.negative then -magnitude d.digits d.exponent else magnitude d.digits d.exponent

/-- A whole number with at most one sign, in the range of a signed 64-bit word. -/
def readInt64? (s : List Char) : Option Int :=
  let (negative, ds) := splitSign s
  if ds.isEmpty || !ds.all isDigit then none
  else
    let n : Int := if negative then -(value ds : Int) else value ds
    if -0x8000000000000000 ≤ n ∧ n < 0x8000000000000000 then some n else none

end Decimal

end ScrapeRelay

import ScrapeRelay.Decimal.Shortest

/-!
Texts of floating-point numbers. The digits are the shortest ones; a layout decides how they are
arranged.
-/

namespace ScrapeRelay.Decimal

structure Layout where
  tie : Tie
  /-- Whether a number in `[10 ^ (point - 1), 10 ^ point)` is written without an exponent. -/
  plain : Int → Bool
  /-- Whether a plain whole number ends in `.0`. -/
  pointed : Bool

def numeral (n : Nat) : List Char := Nat.toDigits 10 n

def zeros (n : Nat) : List Char := List.replicate n '0'

def dropTrailing (s : List Char) : List Char := (s.reverse.dropWhile (· == '0')).reverse

def digitsOnly : Layout := ⟨.up, fun _ => true, false⟩

namespace Layout

/-- `0.d₁d₂… · 10 ^ point` without an exponent. -/
def positional (l : Layout) (ds : List Char) (point : Int) : List Char :=
  if point ≤ 0 then '0' :: '.' :: zeros point.natAbs ++ ds
  else
    let n := point.natAbs
    if ds.length ≤ n then ds ++ zeros (n - ds.length) ++ (if l.pointed then ['.', '0'] else [])
    else ds.take n ++ '.' :: ds.drop n

/-- `d₁.d₂… e ± exponent`, without a point after a single digit. -/
def scientific (ds : List Char) (point : Int) : List Char :=
  let e := point - 1
  let mantissa := match ds with
    | [] => []
    | [d] => [d]
    | d :: rest => d :: '.' :: rest
  mantissa ++ 'e' :: (if e < 0 then '-' else '+') :: numeral e.natAbs

def magnitude (l : Layout) (x : Float) : List Char :=
  if x == 0 then if l.pointed then ['0', '.', '0'] else ['0']
  else
    let (n, e) := shortest l.tie x
    let all := numeral n
    let point := e + all.length
    let ds := dropTrailing all
    if l.plain point then l.positional ds point else scientific ds point

def render (l : Layout) (x : Float) : List Char :=
  if isNegative x then '-' :: l.magnitude (-x) else l.magnitude x

def spell (l : Layout) (positive negative : String) (x : Float) : String :=
  if x.isNaN then "NaN"
  else if x.isInf then if isNegative x then negative else positive
  else String.ofList (l.render x)

end Layout

def text (x : Float) : String := digitsOnly.spell "inf" "-inf" x

end ScrapeRelay.Decimal

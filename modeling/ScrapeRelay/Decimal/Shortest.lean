import ScrapeRelay.Decimal

/-!
The shortest decimal that reads back as a given floating-point number. Grids of 1, 2, … 17 digits are
tried in turn; the two neighbours of the number on a grid are the candidates, and the first grid with
a candidate that reads back gives the answer. The exact expansion stands behind them all.
-/

namespace ScrapeRelay.Decimal

/-- Where a number stands halfway between two candidates that both read back. -/
inductive Tie where
  | up
  | even
  deriving DecidableEq, Repr

/-- The fraction and the exponent of a positive finite number: `x = fraction · 2 ^ exponent`. -/
def binary (x : Float) : Nat × Int :=
  let bits := x.toBits.toNat
  let biased := bits / 0x10000000000000 % 0x800
  let fraction := bits % 0x10000000000000
  if biased = 0 then (fraction, -1074) else (fraction + 0x10000000000000, Int.ofNat biased - 1075)

def isNegative (x : Float) : Bool := 0x8000000000000000 ≤ x.toBits.toNat

/-- Numerator and denominator of `m · 2 ^ q / 10 ^ e`. -/
def scaled (m : Nat) (q e : Int) : Nat × Nat :=
  let up := fun (b : Nat) (k : Int) => if 0 ≤ k then Nat.pow b k.natAbs else 1
  (m * up 2 q * up 10 (-e), up 2 (-q) * up 10 e)

/-- The least `e ≥ start` with `m · 2 ^ q < 10 ^ e`, looked for in `fuel` steps. -/
def ceiling (m : Nat) (q : Int) : Nat → Int → Int
  | 0, e => e
  | fuel + 1, e =>
    let (num, den) := scaled m q e
    if num < den then e else ceiling m q fuel (e + 1)

/-- The exponent `e` with `10 ^ (e - 1) ≤ x < 10 ^ e`; a logarithm gives it up to one step. -/
def decimalPoint (m : Nat) (q : Int) : Int :=
  ceiling m q 3 (((m.log2 : Int) + q) * 30103 / 100000)

def nearest? (tie : Tie) (x : Float) (m : Nat) (q e : Int) : Option Nat :=
  let (num, den) := scaled m q e
  let low := num / den
  let fits := fun d => magnitude d e == x
  match fits low, fits (low + 1) with
  | true, true =>
    let rest := 2 * (num % den)
    if rest < den then some low
    else if den < rest then some (low + 1)
    else match tie with
      | .up => some (low + 1)
      | .even => some (if low % 2 = 0 then low else low + 1)
  | true, false => some low
  | false, true => some (low + 1)
  | false, false => none

def exact (m : Nat) (q : Int) : Nat × Int :=
  if 0 ≤ q then (m * Nat.pow 2 q.natAbs, 0) else (m * Nat.pow 5 q.natAbs, q)

def shortest (tie : Tie) (x : Float) : Nat × Int :=
  let (m, q) := binary x
  let point := decimalPoint m q
  match (List.range 17).findSome? fun n =>
      let e := point - Int.ofNat (n + 1)
      (nearest? tie x m q e).map fun d => (d, e) with
  | some found => found
  | none => exact m q

end ScrapeRelay.Decimal

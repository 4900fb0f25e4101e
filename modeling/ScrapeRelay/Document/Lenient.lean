import ScrapeRelay.Decimal.Layout
import ScrapeRelay.Document

/-!
The reading of settings, where everything may be written as text: numbers and truth values are
understood in several forms and turn into each other.
-/

namespace ScrapeRelay.Document

def lower (s : String) : String := String.ofList (s.toList.map Char.toLower)

def yes (s : String) : Bool := ["true", "on", "yes"].contains (lower s)
def no (s : String) : Bool := ["false", "off", "no"].contains (lower s)

/-- Whole numbers past the signed 64-bit range count as floating-point numbers. -/
def settled : Json.Number → Json.Number
  | .int n => if n < 0x8000000000000000 then .int n else .real (Float.ofInt n)
  | x => x

/-- To the nearest whole number, up at a half, within the range of a 64-bit word. -/
def rounded (x : Float) : Nat := x.round.toUInt64.toNat

def naturalText? (s : String) : Option Nat :=
  if yes s then some 1
  else if no s then some 0
  else
    let ds := match s.toList with
      | '+' :: rest => rest
      | cs => cs
    if ds.isEmpty || !ds.all Decimal.isDigit || UInt64.size ≤ Decimal.value ds then none
    else some (Decimal.value ds)

def realText? (s : String) : Option Float :=
  if yes s then some 1
  else if no s then some 0
  else
    let (negative, body) := Decimal.splitSign s.toList
    let word := lower (String.ofList body)
    if word = "inf" ∨ word = "infinity" then some (if negative then -1 / 0 else 1 / 0)
    else if word = "nan" then some (0 / 0)
    else (Decimal.read? s.toList).map (·.toFloat)

def lenient : Reading where
  text?
    | .str s => some s
    | .bool b => some (if b then "true" else "false")
    | .num n =>
      match settled n with
      | .int n => some (toString n)
      | .real x => some (Decimal.text x)
    | _ => none
  flag?
    | .bool b => some b
    | .num n =>
      match settled n with
      | .int n => some (n != 0)
      | .real x => some (x != 0)
    | .str s => if yes s ∨ s = "1" then some true else if no s ∨ s = "0" then some false else none
    | _ => none
  natural?
    | .bool b => some b.toNat
    | .num n =>
      match settled n with
      | .int n => if 0 ≤ n then some n.toNat else none
      | .real x => some (rounded x)
    | .str s => naturalText? s
    | _ => none
  real?
    | .bool b => some (if b then 1 else 0)
    | .num n => some n.toFloat
    | .str s => realText? s
    | _ => none
  choice?
    | .str s => some s
    | .obj [(name, _)] => some name
    | _ => none
  surplus := true

end ScrapeRelay.Document

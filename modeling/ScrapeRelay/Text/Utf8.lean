/-!
Text from octets. Whatever is no UTF-8 is replaced: each longest beginning of a character that does not
go on as one, and each octet that begins none, by one U+FFFD.
-/

namespace ScrapeRelay.Text.Utf8

/-- The beginning of a character: the octets still owed, the range of the next one and the value of
the bits so far. -/
structure Begun where
  owed : Nat
  low : Nat
  high : Nat
  value : Nat
  deriving DecidableEq, Repr

def replacement : Char := '\uFFFD'

def lead? (b : Nat) : Option Begun :=
  if 0xC2 ≤ b ∧ b ≤ 0xDF then some ⟨1, 0x80, 0xBF, b - 0xC0⟩
  else if 0xE0 ≤ b ∧ b ≤ 0xEF then
    some ⟨2, if b = 0xE0 then 0xA0 else 0x80, if b = 0xED then 0x9F else 0xBF, b - 0xE0⟩
  else if 0xF0 ≤ b ∧ b ≤ 0xF4 then
    some ⟨3, if b = 0xF0 then 0x90 else 0x80, if b = 0xF4 then 0x8F else 0xBF, b - 0xF0⟩
  else none

def start (b : Nat) : List Char × Option Begun :=
  if b < 0x80 then ([Char.ofNat b], none)
  else
    match lead? b with
    | some begun => ([], some begun)
    | none => ([replacement], none)

/-- An octet that does not continue a character starts anew. -/
def next : Option Begun → Nat → List Char × Option Begun
  | none, b => start b
  | some c, b =>
    if c.low ≤ b ∧ b ≤ c.high then
      let value := c.value * 64 + (b - 0x80)
      if c.owed = 1 then ([Char.ofNat value], none) else ([], some ⟨c.owed - 1, 0x80, 0xBF, value⟩)
    else (replacement :: (start b).1, (start b).2)

def decodeFrom : Option Begun → List UInt8 → List Char
  | none, [] => []
  | some _, [] => [replacement]
  | begun, b :: rest => (next begun b.toNat).1 ++ decodeFrom (next begun b.toNat).2 rest

def decode (octets : List UInt8) : String := String.ofList (decodeFrom none octets)

end ScrapeRelay.Text.Utf8

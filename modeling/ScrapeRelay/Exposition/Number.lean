import ScrapeRelay.Decimal.Layout

/-!
Sample values and bounds. Three words stand for the numbers without digits; a numeral beyond the
floating-point range is no value.
-/

namespace ScrapeRelay.Exposition

def notANumber : Float := 0 / 0
def infinity : Float := 1 / 0

def number? (s : List Char) : Option Float :=
  if s = ['N', 'a', 'N'] then some notANumber
  else if s = ['+', 'I', 'n', 'f'] ∨ s = ['I', 'n', 'f'] then some infinity
  else if s = ['-', 'I', 'n', 'f'] then some (-infinity)
  else (Decimal.read? s).bind fun d => if d.toFloat.isFinite then some d.toFloat else none

def boundText (x : Float) : String := Decimal.digitsOnly.spell "+Inf" "-Inf" x

end ScrapeRelay.Exposition

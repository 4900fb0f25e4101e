import ScrapeRelay.Decimal.Layout

/-!
Durations in words: nothing, milliseconds below one second, else seconds with as many places as needed.
-/

namespace ScrapeRelay.Text

def places (millis : Nat) : List Char :=
  let ds := Decimal.numeral millis
  ((List.replicate (3 - ds.length) '0' ++ ds).reverse.dropWhile (· == '0')).reverse

def duration (millis : Nat) : String :=
  if millis = 0 then "0ns"
  else if millis < 1000 then s!"{millis}ms"
  else if millis % 1000 = 0 then s!"{millis / 1000}s"
  else s!"{millis / 1000}.{String.ofList (places (millis % 1000))}s"

end ScrapeRelay.Text

import ScrapeRelay.Decimal.Layout

/-!
Points in time and their RFC 3339 texts. A time is read with any offset and written in UTC, with the
fewest fraction digits among 0, 3, 6 and 9 that lose nothing.
-/

namespace ScrapeRelay

/-- Seconds since 1970 and nanoseconds; a leap second counts its nanoseconds from one second up. -/
structure Timestamp where
  seconds : Int
  nanos : Nat
  deriving DecidableEq, Repr, Inhabited

namespace Timestamp

open Decimal (isDigit value numeral)

def epoch : Timestamp := ⟨0, 0⟩

def daysOf (year : Int) (month day : Nat) : Int :=
  let y := if month ≤ 2 then year - 1 else year
  let era := y.fdiv 400
  let yearOfEra := y - era * 400
  let shifted : Int := if month ≤ 2 then month + 9 else (month : Int) - 3
  let dayOfYear := (153 * shifted + 2) / 5 + day - 1
  era * 146097 + yearOfEra * 365 + yearOfEra / 4 - yearOfEra / 100 + dayOfYear - 719468

def dateOf (days : Int) : Int × Nat × Nat :=
  let z := days + 719468
  let era := z.fdiv 146097
  let doe := z - era * 146097
  let yoe := (doe - doe / 1460 + doe / 36524 - doe / 146096) / 365
  let doy := doe - (365 * yoe + yoe / 4 - yoe / 100)
  let shifted := (5 * doy + 2) / 153
  let day := doy - (153 * shifted + 2) / 5 + 1
  let month := if shifted < 10 then shifted + 3 else shifted - 9
  (yoe + era * 400 + (if month ≤ 2 then 1 else 0), month.toNat, day.toNat)

def isLeap (year : Int) : Bool := year % 4 == 0 && (year % 100 != 0 || year % 400 == 0)

def daysIn (year : Int) (month : Nat) : Nat :=
  if month = 2 then if isLeap year then 29 else 28
  else if month = 4 ∨ month = 6 ∨ month = 9 ∨ month = 11 then 30 else 31

def field? (n : Nat) (s : List Char) : Option (Nat × List Char) :=
  let ds := s.take n
  if ds.length = n ∧ ds.all isDigit then some (value ds, s.drop n) else none

def expect? (p : Char → Bool) : List Char → Option (List Char)
  | c :: rest => if p c then some rest else none
  | [] => none

/-- Nanoseconds of a fraction part; digits past the ninth are dropped. -/
def fraction? : List Char → Option (Nat × List Char)
  | '.' :: rest =>
    let ds := rest.takeWhile isDigit
    if ds.isEmpty then none
    else some (value ((ds ++ List.replicate 9 '0').take 9), rest.dropWhile isDigit)
  | s => some (0, s)

/-- Seconds east of UTC. -/
def offset? : List Char → Option Int
  | [c] => if c = 'Z' ∨ c = 'z' then some 0 else none
  | c :: rest => do
    let (h, s) ← field? 2 rest
    let s ← expect? (· == ':') s
    let (m, s) ← field? 2 s
    if !s.isEmpty || 24 ≤ h || 60 ≤ m then none
    else if c = '+' then some (h * 3600 + m * 60)
    else if c = '-' then some (-((h * 3600 + m * 60 : Nat) : Int))
    else none
  | [] => none

def behindYear? (year : Int) (s : List Char) : Option Timestamp := do
  let s ← expect? (· == '-') s
  let (month, s) ← field? 2 s
  let s ← expect? (· == '-') s
  let (day, s) ← field? 2 s
  let s ← expect? (fun c => c == 'T' || c == 't' || c == ' ') s
  let (hour, s) ← field? 2 s
  let s ← expect? (· == ':') s
  let (minute, s) ← field? 2 s
  let s ← expect? (· == ':') s
  let (second, s) ← field? 2 s
  let (nanos, s) ← fraction? s
  let east ← offset? s
  if month = 0 ∨ 12 < month ∨ day = 0 ∨ daysIn year month < day then none
  else if 24 ≤ hour ∨ 60 ≤ minute ∨ 60 < second then none
  else
    let leap := second / 60
    let total := daysOf year month day * 86400 + ((hour * 3600 + minute * 60 + second - leap : Nat) : Int)
    some ⟨total - east, nanos + leap * 1000000000⟩

def read? (s : List Char) : Option Timestamp := do
  let (year, s) ← field? 4 s
  behindYear? year s

def padded (width n : Nat) : List Char :=
  let ds := numeral n
  List.replicate (width - ds.length) '0' ++ ds

/-- Four digits, or a sign and at least four digits outside 0 to 9999. -/
def yearText (year : Int) : List Char :=
  if 0 ≤ year ∧ year ≤ 9999 then padded 4 year.natAbs
  else (if year < 0 then '-' else '+') :: padded 4 year.natAbs

def fractionText (nanos : Nat) : List Char :=
  if nanos = 0 then []
  else if nanos % 1000000 = 0 then '.' :: padded 3 (nanos / 1000000)
  else if nanos % 1000 = 0 then '.' :: padded 6 (nanos / 1000)
  else '.' :: padded 9 nanos

def render (t : Timestamp) : List Char :=
  let days := t.seconds.fdiv 86400
  let rest := (t.seconds - days * 86400).toNat
  let (year, month, day) := dateOf days
  yearText year ++ '-' :: padded 2 month ++ '-' :: padded 2 day ++
    'T' :: padded 2 (rest / 3600) ++ ':' :: padded 2 (rest / 60 % 60) ++
    ':' :: padded 2 (rest % 60 + t.nanos / 1000000000) ++ fractionText (t.nanos % 1000000000) ++ ['Z']

def text (t : Timestamp) : String := String.ofList t.render

end Timestamp

end ScrapeRelay

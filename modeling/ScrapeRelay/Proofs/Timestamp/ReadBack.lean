import ScrapeRelay.Proofs.Decimal.ReadBack
import ScrapeRelay.Proofs.Timestamp.Calendar

/-!
Timestamps are read back from their texts, with all their nanoseconds, leap seconds and years of any length.
-/

namespace ScrapeRelay.Timestamp

open Decimal (Digits isDigit value numeral zeros)
open Option (bind_eq_some_iff)

variable {s : List Char} {w n nanos : ℕ} {year : ℤ} {t : Timestamp}

/-! Fields -/

theorem padded_digits (w n : ℕ) : Digits (padded w n) :=
  (Decimal.digits_zeros _).append (Decimal.digits_numeral n)

theorem value_padded (w n : ℕ) : value (padded w n) = n := by
  change value (zeros _ ++ numeral n) = n
  rw [Decimal.value_append, Decimal.value_zeros, Decimal.value_numeral, Nat.zero_mul, Nat.zero_add]

theorem length_padded (hw : 0 < w) (h : n < 10 ^ w) : (padded w n).length = w := by
  have hlen : (numeral n).length ≤ w := (Nat.length_toDigits_le_iff (by decide) hw).mpr h
  rw [padded, List.length_append, List.length_replicate]
  omega

theorem field?_padded (hw : 0 < w) (h : n < 10 ^ w) (s : List Char) :
    field? w (padded w n ++ s) = some (n, s) := by
  have hlen := length_padded hw h
  have hall : (padded w n).all isDigit = true := List.all_eq_true.mpr (padded_digits w n)
  rw [field?, List.take_left' hlen, List.drop_left' hlen, value_padded]
  exact if_pos ⟨hlen, hall⟩

theorem field?_two (h : n < 100) (s : List Char) : field? 2 (padded 2 n ++ s) = some (n, s) :=
  field?_padded (by decide) h s

theorem fraction?_padded {k : ℕ} (hw : 0 < w) (hk : w + k = 9) (h : n < 10 ^ w) (hs : Decimal.Behind s) :
    fraction? ('.' :: (padded w n ++ s)) = some (n * 10 ^ k, s) := by
  have hlen := length_padded hw h
  have hd := padded_digits w n
  have hne : (padded w n).isEmpty = false := by
    rw [List.isEmpty_eq_false_iff, ← List.length_pos_iff]
    omega
  have hv : (padded w n ++ List.replicate 9 '0').take 9 = padded w n ++ zeros k := by
    rw [List.take_append, hlen, List.take_of_length_le (by omega), List.take_replicate, zeros]
    congr
    omega
  simp only [fraction?, Text.takeWhile_run hd hs, Text.dropWhile_run hd hs, hne, hv]
  rw [if_neg Bool.false_ne_true, Decimal.value_append, Decimal.value_zeros, value_padded, Decimal.zeros_length,
    Nat.add_zero]

theorem fraction?_text (h : nanos < 1000000000) :
    fraction? (fractionText nanos ++ ['Z']) = some (nanos, ['Z']) := by
  have zulu : Decimal.Behind ['Z'] := by
    rintro c ⟨⟩
    rfl
  unfold fractionText
  split_ifs with h₁ h₂ h₃
  · rw [h₁]
    rfl
  · have := fraction?_padded (n := nanos / 1000000) (k := 6) (by decide : 0 < 3) rfl (by omega) zulu
    rwa [show nanos / 1000000 * 10 ^ 6 = nanos by omega] at this
  · have := fraction?_padded (n := nanos / 1000) (k := 3) (by decide : 0 < 6) rfl (by omega) zulu
    rwa [show nanos / 1000 * 10 ^ 3 = nanos by omega] at this
  · have := fraction?_padded (n := nanos) (k := 0) (by decide : 0 < 9) rfl (by omega) zulu
    rwa [Nat.pow_zero, Nat.mul_one] at this

theorem offset?_zulu : offset? ['Z'] = some 0 := rfl

/-! The text behind the year -/

def fields (month day hour minute second nanos : ℕ) : List Char :=
  '-' :: (padded 2 month ++ '-' :: (padded 2 day ++ 'T' :: (padded 2 hour ++ ':' :: (padded 2 minute ++
    ':' :: (padded 2 second ++ (fractionText nanos ++ ['Z']))))))

theorem dash (s : List Char) : expect? (· == '-') ('-' :: s) = some s := rfl

theorem colon (s : List Char) : expect? (· == ':') (':' :: s) = some s := rfl

theorem behindYear?_fields {month day hour minute second : ℕ} (hdate : IsDate year month day) (hhour : hour < 24)
    (hminute : minute < 60) (hsecond : second ≤ 60) (hnanos : nanos < 1000000000) :
    behindYear? year (fields month day hour minute second nanos) =
      some ⟨daysOf year month day * 86400 + (hour * 3600 + minute * 60 + second - second / 60 : ℕ),
        nanos + second / 60 * 1000000000⟩ := by
  obtain ⟨mpos, mle, dpos, dle⟩ := hdate
  have short : daysIn year month ≤ 31 := by
    unfold daysIn
    split_ifs <;> decide
  have number {n : ℕ} (hn : n < 100) {s : List Char} {g : ℕ × List Char → Option Timestamp} {t : Timestamp}
      (h : g (n, s) = some t) : field? 2 (padded 2 n ++ s) >>= g = some t :=
    bind_eq_some_iff.mpr ⟨_, field?_two hn s, h⟩
  unfold behindYear?
  refine bind_eq_some_iff.mpr ⟨_, dash _, number (by omega) ?_⟩
  refine bind_eq_some_iff.mpr ⟨_, dash _, number (by omega) ?_⟩
  refine bind_eq_some_iff.mpr ⟨_, rfl, number (by omega) ?_⟩
  refine bind_eq_some_iff.mpr ⟨_, colon _, number (by omega) ?_⟩
  refine bind_eq_some_iff.mpr ⟨_, colon _, number (by omega) ?_⟩
  refine bind_eq_some_iff.mpr ⟨_, fraction?_text hnanos, bind_eq_some_iff.mpr ⟨_, offset?_zulu, ?_⟩⟩
  rw [if_neg (by omega), if_neg (by omega)]
  simp only [Int.sub_zero]

/-- A leap second stands at the end of a minute only. -/
structure Sound (t : Timestamp) : Prop where
  nanos : t.nanos < 2000000000
  leap : 1000000000 ≤ t.nanos → t.seconds % 60 = 59

def days (t : Timestamp) : ℤ := t.seconds / 86400

def clock (t : Timestamp) : ℕ := (t.seconds % 86400).toNat

def behindYear (t : Timestamp) : List Char :=
  fields (dateOf t.days).2.1 (dateOf t.days).2.2 (t.clock / 3600) (t.clock / 60 % 60)
    (t.clock % 60 + t.nanos / 1000000000) (t.nanos % 1000000000)

theorem render_eq (t : Timestamp) : t.render = yearText (dateOf t.days).1 ++ t.behindYear := by
  have hdays : t.seconds.fdiv 86400 = t.days := Int.fdiv_eq_ediv_of_nonneg _ (by decide)
  have hclock : (t.seconds - t.days * 86400).toNat = t.clock := by
    rw [days, clock]
    congr 1
    omega
  simp only [render, hdays, hclock, behindYear, fields]
  simp

theorem behindYear?_behindYear (h : t.Sound) : behindYear? (dateOf t.days).1 t.behindYear = some t := by
  obtain ⟨hdate, hdays⟩ := dateOf_isDate t.days
  have hclock : t.clock < 86400 := by
    unfold clock
    omega
  have seconds : t.days * 86400 + t.clock = t.seconds := by
    unfold days clock
    omega
  -- The sixtieth second is the one before it once more, with its nanoseconds counted on.
  have carried : t.nanos / 1000000000 = 0 ∨ t.nanos / 1000000000 = 1 ∧ t.clock % 60 = 59 := by
    have := h.nanos
    have := h.leap
    unfold clock
    omega
  rw [behindYear, behindYear?_fields hdate (by omega) (by omega) (by omega) (by omega), hdays]
  congr 2
  · omega
  · omega

/-! The year -/

/-- The year of a text: behind a sign it has as many digits as there are, and else four. -/
def year? : List Char → Option (ℤ × List Char)
  | '-' :: s => some (-(value (s.takeWhile isDigit)), s.dropWhile isDigit)
  | '+' :: s => some (value (s.takeWhile isDigit), s.dropWhile isDigit)
  | s => (field? 4 s).map fun r => (r.1, r.2)

def readSigned? (s : List Char) : Option Timestamp := (year? s).bind fun r => behindYear? r.1 r.2

theorem year?_of_field? {r : ℕ × List Char} (h : field? 4 s = some r) :
    year? s = some ((r.1 : ℤ), r.2) := by
  have signed (c : Char) (rest : List Char) (hc : isDigit c = false) : field? 4 (c :: rest) = none := by
    simp [field?, hc]
  unfold year?
  split
  · rw [signed _ _ rfl] at h
    cases h
  · rw [signed _ _ rfl] at h
    cases h
  · rw [h]
    rfl

theorem year?_text (year : ℤ) (hs : Decimal.Behind s) : year? (yearText year ++ s) = some (year, s) := by
  have hd := padded_digits 4 year.natAbs
  have whole : value ((padded 4 year.natAbs ++ s).takeWhile isDigit) = year.natAbs := by
    rw [Text.takeWhile_run hd hs, value_padded]
  have rest : (padded 4 year.natAbs ++ s).dropWhile isDigit = s := Text.dropWhile_run hd hs
  unfold yearText
  split_ifs with h₁ h₂
  · rw [year?_of_field? (field?_padded (by decide) (by omega : year.natAbs < 10 ^ 4) s)]
    simp [abs_of_nonneg h₁.1]
  · rw [List.cons_append, year?, whole, rest]
    simp [abs_of_neg h₂]
  · rw [List.cons_append, year?, whole, rest]
    simp [abs_of_nonneg (Int.not_lt.mp h₂)]

theorem behind_year (t : Timestamp) : Decimal.Behind t.behindYear := by
  rintro c ⟨⟩
  rfl

theorem readSigned?_render (h : t.Sound) : readSigned? t.render = some t := by
  rw [readSigned?, render_eq, year?_text _ t.behind_year, Option.bind_some, behindYear?_behindYear h]

end ScrapeRelay.Timestamp

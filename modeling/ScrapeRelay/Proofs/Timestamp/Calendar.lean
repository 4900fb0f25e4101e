import Mathlib.Tactic.IntervalCases
import ScrapeRelay.Timestamp

/-!
The calendar that timestamps are written in. Every day has a date, which is one of the days of its month, and
the date stands for this day alone.
-/

namespace ScrapeRelay.Timestamp

/-- The days of an era before the year starts. -/
def yearStart (y : ℤ) : ℤ := 365 * y + y / 4 - y / 100

/-- A day of an era without the leap days before it. -/
def evened (d : ℤ) : ℤ := d - d / 1460 + d / 36524 - d / 146096

variable {d d' y : ℤ}

theorem evened_mono (h : d ≤ d') : evened d ≤ evened d' := by
  have years : d - d / 1460 ≤ d' - d' / 1460 := by omega
  have centuries : d / 36524 - d / 146096 ≤ d' / 36524 - d' / 146096 := by omega
  unfold evened
  omega

theorem evened_yearStart : ∀ y : Fin 400, 365 * (y : ℤ) ≤ evened (yearStart y) ∧
    (0 < (y : ℤ) → evened (yearStart y - 1) < 365 * (y : ℤ)) := by
  -- An era has so few years that each of them is tried.
  decide +kernel

theorem year_of_day (low : 0 ≤ d) (high : d < 146097) (hy : y = evened d / 365) :
    0 ≤ y ∧ y < 400 ∧ yearStart y ≤ d ∧ (y < 399 → d < yearStart (y + 1)) := by
  have bounds : 0 ≤ evened d ∧ evened d < 146000 := by
    unfold evened
    omega
  have around (k : ℤ) (hlow : 0 ≤ k) (hhigh : k < 400) :
      365 * k ≤ evened (yearStart k) ∧ (0 < k → evened (yearStart k - 1) < 365 * k) := by
    obtain ⟨n, rfl⟩ := Int.eq_ofNat_of_zero_le hlow
    exact evened_yearStart ⟨n, by omega⟩
  -- `evened` grows with the day, so that its values where two years start say which year a day is in.
  refine ⟨by omega, by omega, ?_, fun hlast => ?_⟩
  · by_contra hd
    have hpos : 0 < y := by
      rcases Int.lt_or_le 0 y with h | h
      · exact h
      · have : yearStart y = 0 := by
          rw [show y = 0 by omega]
          rfl
        omega
    have before := (around y (by omega) (by omega)).2 hpos
    have := evened_mono (show d ≤ yearStart y - 1 by omega)
    omega
  · by_contra hd
    have behind := (around (y + 1) (by omega) (by omega)).1
    have := evened_mono (show yearStart (y + 1) ≤ d by omega)
    omega

theorem isLeap_iff : isLeap y = true ↔ y % 4 = 0 ∧ (y % 100 ≠ 0 ∨ y % 400 = 0) := by
  simp [isLeap]

theorem isLeap_era (y era : ℤ) : isLeap (y + era * 400) = isLeap y := by
  have four : (y + era * 400) % 4 = y % 4 := by omega
  have hundred : (y + era * 400) % 100 = y % 100 := by omega
  rw [isLeap, isLeap, four, hundred, Int.add_mul_emod_self_right]

theorem day_of_year (low : 0 ≤ d) (high : d < 146097) (hy : y = evened d / 365) :
    0 ≤ d - yearStart y ∧ d - yearStart y < if isLeap (y + 1) then 366 else 365 := by
  obtain ⟨hlow, hhigh, hstart, hnext⟩ := year_of_day low high hy
  refine ⟨by omega, ?_⟩
  have fours : (y + 1) / 4 = y / 4 + if (y + 1) % 4 = 0 then 1 else 0 := by split <;> omega
  have hundreds : (y + 1) / 100 = y / 100 + if (y + 1) % 100 = 0 then 1 else 0 := by split <;> omega
  have both : (y + 1) % 100 = 0 → (y + 1) % 4 = 0 := by omega
  have length : yearStart (y + 1) - yearStart y =
      365 + (if (y + 1) % 4 = 0 then 1 else 0) - if (y + 1) % 100 = 0 then 1 else 0 := by
    unfold yearStart
    omega
  have leap : isLeap (y + 1) = true ↔ _ := isLeap_iff
  rcases Int.lt_or_le y 399 with hlast | hlast
  · have before := hnext hlast
    by_cases hl : isLeap (y + 1) = true
    · rw [if_pos hl]
      omega
    · rw [if_neg hl]
      rw [leap] at hl
      have last : (y + 1) % 400 ≠ 0 := by omega
      split at length <;> split at length <;> omega
  · obtain rfl : y = 399 := by omega
    have : yearStart 399 = 145731 := rfl
    rw [if_pos (by rfl)]
    omega

structure IsDate (year : ℤ) (month day : ℕ) : Prop where
  month_pos : 0 < month
  month_le : month ≤ 12
  day_pos : 0 < day
  day_le : day ≤ daysIn year month

def monthOf (m : ℤ) : ℤ := if m < 10 then m + 3 else m - 9

def monthStart (m : ℤ) : ℤ := (153 * m + 2) / 5

variable {m era doy : ℤ} {leap : Bool}

theorem month_of_day (low : 0 ≤ doy) (high : doy < if leap then 366 else 365) (hm : m = (5 * doy + 2) / 153) :
    0 ≤ m ∧ m < 12 ∧ monthStart m ≤ doy ∧ doy < monthStart (m + 1) ∧
      (m = 11 → doy < monthStart m + if leap then 29 else 28) := by
  have bound : doy < 366 := by
    cases leap <;> simp only [Bool.false_eq_true, if_true, if_false] at high <;> omega
  have length : (if leap then (29 : ℤ) else 28) = (if leap then 366 else 365) - 337 := by
    cases leap <;> rfl
  unfold monthStart
  refine ⟨by omega, by omega, by omega, by omega, fun h => ?_⟩
  rw [length, h]
  omega

theorem daysIn_monthOf (low : 0 ≤ m) (high : m < 12) (year : ℤ) :
    (daysIn year (monthOf m).toNat : ℤ) =
      if m = 11 then if isLeap year then 29 else 28 else monthStart (m + 1) - monthStart m := by
  interval_cases m <;> simp [daysIn, monthOf, monthStart]

theorem daysOf_monthOf (ylow : 0 ≤ y) (yhigh : y < 400) (low : 0 ≤ m) (high : m < 12) (era : ℤ) (day : ℕ) :
    daysOf (y + era * 400 + if monthOf m ≤ 2 then 1 else 0) (monthOf m).toNat day =
      era * 146097 + yearStart y + (monthStart m + day - 1) - 719468 := by
  have eras : (y + era * 400).fdiv 400 = era := by
    rw [Int.fdiv_eq_ediv_of_nonneg _ (by decide)]
    omega
  unfold monthOf
  rcases Int.lt_or_le m 10 with h | h
  · have shifted : ((m + 3).toNat : ℤ) - 3 = m := by omega
    simp only [if_pos h, if_neg (by omega : ¬ m + 3 ≤ 2), Int.add_zero]
    rw [daysOf, if_neg (by omega), if_neg (by omega), eras, shifted]
    simp only [Int.add_sub_cancel, yearStart, monthStart]
    omega
  · have shifted : ((m - 9).toNat : ℤ) + 9 = m := by omega
    simp only [if_neg (Int.not_lt.mpr h), if_pos (by omega : m - 9 ≤ 2)]
    rw [daysOf, if_pos (by omega), if_pos (by omega), Int.add_sub_cancel, eras, shifted]
    simp only [Int.add_sub_cancel, yearStart, monthStart]
    omega

theorem dateOf_eq (days : ℤ) : dateOf days =
    let era := (days + 719468) / 146097
    let d := days + 719468 - era * 146097
    let y := evened d / 365
    let doy := d - yearStart y
    let m := (5 * doy + 2) / 153
    (y + era * 400 + if monthOf m ≤ 2 then 1 else 0, (monthOf m).toNat, (doy - monthStart m + 1).toNat) := by
  rw [dateOf, Int.fdiv_eq_ediv_of_nonneg _ (by decide)]
  rfl

theorem dateOf_isDate (days : ℤ) : IsDate (dateOf days).1 (dateOf days).2.1 (dateOf days).2.2 ∧
    daysOf (dateOf days).1 (dateOf days).2.1 (dateOf days).2.2 = days := by
  rw [dateOf_eq]
  dsimp only
  generalize hera : (days + 719468) / 146097 = era
  generalize hd : days + 719468 - era * 146097 = d
  have low : 0 ≤ d := by omega
  have high : d < 146097 := by omega
  generalize hy : evened d / 365 = y
  obtain ⟨ylow, yhigh, -⟩ := year_of_day low high hy.symm
  obtain ⟨doylow, doyhigh⟩ := day_of_year low high hy.symm
  generalize hdoy : d - yearStart y = doy at doylow doyhigh
  generalize hm : (5 * doy + 2) / 153 = m
  obtain ⟨mlow, mhigh, dlow, dhigh, dlast⟩ := month_of_day doylow doyhigh hm.symm
  have day : ((doy - monthStart m + 1).toNat : ℤ) = doy - monthStart m + 1 := by omega
  refine ⟨⟨?_, ?_, by omega, ?_⟩, ?_⟩
  · unfold monthOf
    omega
  · unfold monthOf
    omega
  · have days := daysIn_monthOf mlow mhigh (y + era * 400 + if monthOf m ≤ 2 then 1 else 0)
    apply Int.ofNat_le.mp
    rw [day, days]
    split
    · rename_i hlast
      have leap : isLeap (y + era * 400 + if monthOf m ≤ 2 then 1 else 0) = isLeap (y + 1) := by
        rw [hlast, if_pos (by decide), Int.add_right_comm, isLeap_era]
      rw [leap]
      have := dlast hlast
      omega
    · omega
  · rw [daysOf_monthOf ylow yhigh mlow mhigh, day]
    omega

end ScrapeRelay.Timestamp

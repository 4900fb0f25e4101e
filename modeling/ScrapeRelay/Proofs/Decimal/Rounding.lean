import Mathlib

/-!
How a positive number is rounded to the floating-point grid. The grid is fixed by the size of the number, so the
result depends on the number alone, in whatever way it comes as a mantissa, an exponent and a rest.
-/

namespace ScrapeRelay.Decimal

open Float.Model Float.Model.UnpackedFloat

variable {em : ExtendedMantissa} {v : ℚ} {m : ℕ} {e : ℤ}

/-! The mantissa and the bits behind it -/

/-- The mantissa and its round bit are the number up to half a unit, and the sticky bit says whether they miss
it. -/
structure Stands (em : ExtendedMantissa) (v : ℚ) : Prop where
  low : em.mantissa + em.roundBit.toNat / 2 ≤ v
  high : v < em.mantissa + em.roundBit.toNat / 2 + 1 / 2
  exact : em.stickyBit = false ↔ v = em.mantissa + em.roundBit.toNat / 2

theorem Stands.shiftRightOne (h : Stands em v) : Stands em.shiftRightOne (v / 2) := by
  obtain ⟨low, high, exact⟩ := h
  obtain ⟨m, r, s⟩ := em
  have hm : (m : ℚ) = 2 * (m / 2 : ℕ) + (m % 2 : ℕ) := by exact_mod_cast (Nat.div_add_mod m 2).symm
  have hbit : ((m % 2 != 0).toNat : ℚ) = (m % 2 : ℕ) := by
    rcases Nat.mod_two_eq_zero_or_one m with h | h <;> simp [h]
  simp only at low high exact
  refine ⟨?_, ?_, ?_⟩ <;> simp only [ExtendedMantissa.shiftRightOne, hbit]
  · cases r <;> simp at low <;> linarith
  · cases r <;> simp at high <;> linarith
  · cases r with
    | false =>
      rw [Bool.false_or, exact]
      constructor <;> intro h <;> simp at h ⊢ <;> linarith
    | true =>
      simp at low ⊢
      intro h
      linarith

theorem Stands.shiftRight (h : Stands em v) (k : ℕ) : Stands (em >>> k) (v / 2 ^ k) := by
  change Stands (k.repeat ExtendedMantissa.shiftRightOne em) _
  induction k with
  | zero => simpa [Nat.repeat] using h
  | succ k ih =>
    rw [Nat.repeat, pow_succ, ← div_div]
    exact ih.shiftRightOne

def nearestEven (v : ℚ) : ℕ :=
  let n := ⌊v⌋₊
  if 2 * (v - n) < 1 then n else if 1 < 2 * (v - n) then n + 1 else n + n % 2

theorem Stands.floor (h : Stands em v) : ⌊v⌋₊ = em.mantissa := by
  obtain ⟨low, high, -⟩ := h
  have hbit : (em.roundBit.toNat : ℚ) = 0 ∨ (em.roundBit.toNat : ℚ) = 1 := by cases em.roundBit <;> simp
  have hm : (0 : ℚ) ≤ em.mantissa := Nat.cast_nonneg _
  rw [Nat.floor_eq_iff (by rcases hbit with h | h <;> rw [h] at low <;> linarith)]
  constructor <;> rcases hbit with h | h <;> rw [h] at low high <;> linarith

theorem Stands.rounded (h : Stands em v) : em.roundedMantissa = nearestEven v := by
  rw [nearestEven, h.floor]
  obtain ⟨low, high, exact⟩ := h
  obtain ⟨m, r, s⟩ := em
  cases r <;> cases s <;>
    simp [ExtendedMantissa.roundedMantissa, ExtendedMantissa.accuracy,
      Accuracy.roundToNearestEven] at low high exact ⊢
  · simp [exact]
  · intro h
    linarith
  · rw [if_neg (by linarith), if_neg (by linarith)]
  · have : (m : ℚ) + 1 / 2 < v := lt_of_le_of_ne (by linarith) fun h => exact (by linarith)
    rw [if_neg (by linarith), if_pos (by linarith)]

theorem stands_exact (m : ℕ) : Stands (.ofMantissaAndAccuracy m .exact) m := by
  constructor <;> simp [ExtendedMantissa.ofMantissaAndAccuracy]

theorem stands_fraction (a : ℕ) {b : ℕ} (hb : 0 < b) :
    Stands (.ofMantissaAndAccuracy (a / b) (accuracyOfFraction (a % b) b)) ((a : ℚ) / b) := by
  have hb' : (0 : ℚ) < b := by exact_mod_cast hb
  have hr : ((a % b : ℕ) : ℚ) < b := by exact_mod_cast Nat.mod_lt a hb
  have ha : (a : ℚ) = b * (a / b : ℕ) + (a % b : ℕ) := by exact_mod_cast (Nat.div_add_mod a b).symm
  have hv : (a : ℚ) / b = (a / b : ℕ) + (a % b : ℕ) / b := by
    rw [ha, add_div, mul_div_cancel_left₀ _ hb'.ne']
  rw [hv]
  generalize a / b = q at *
  generalize a % b = r at *
  have hone : (r : ℚ) / b < 1 := (div_lt_one hb').mpr hr
  have half_lt : (r : ℚ) / b < 1 / 2 ↔ 2 * r < b := by
    rw [div_lt_div_iff₀ hb' two_pos, one_mul, mul_comm]
    exact_mod_cast Iff.rfl
  have half_eq : (r : ℚ) / b = 1 / 2 ↔ 2 * r = b := by
    rw [div_eq_div_iff hb'.ne' two_ne_zero, one_mul, mul_comm]
    exact_mod_cast Iff.rfl
  by_cases hz : r = 0
  · subst hz
    simpa [accuracyOfFraction] using stands_exact q
  have hpos : 0 < (r : ℚ) / b := div_pos (by exact_mod_cast Nat.pos_of_ne_zero hz) hb'
  rw [accuracyOfFraction, if_neg hz]
  generalize (r : ℚ) / b = rest at *
  rcases lt_trichotomy (2 * r) b with h | h | h
  · rw [Nat.compare_eq_lt.mpr h]
    have := half_lt.mpr h
    constructor <;> simp [ExtendedMantissa.ofMantissaAndAccuracy] <;> linarith
  · rw [Nat.compare_eq_eq.mpr h]
    have := half_eq.mpr h
    constructor <;> simp [ExtendedMantissa.ofMantissaAndAccuracy] <;> linarith
  · rw [Nat.compare_eq_gt.mpr h]
    have : 1 / 2 < rest :=
      lt_of_le_of_ne (not_lt.mp (half_lt.not.mpr (by omega))) (Ne.symm (half_eq.not.mpr (by omega)))
    constructor <;> simp [ExtendedMantissa.ofMantissaAndAccuracy] <;> grind

/-! The nearest natural number -/

theorem nearestEven_natCast (n : ℕ) : nearestEven n = n := by simp [nearestEven]

theorem nearestEven_le {n : ℕ} (hv : 0 ≤ v) (h : v < n) : nearestEven v ≤ n := by
  have hf : ⌊v⌋₊ < n := (Nat.floor_lt hv).mpr h
  rw [nearestEven]
  split
  · omega
  · split <;> omega

theorem le_nearestEven {n : ℕ} (h : (n : ℚ) ≤ v) : n ≤ nearestEven v := by
  have hf : n ≤ ⌊v⌋₊ := Nat.le_floor h
  rw [nearestEven]
  split
  · omega
  · split <;> omega

theorem nearestEven_small (h : v < 1 / 2) : nearestEven v = 0 := by
  have hf : ⌊v⌋₊ = 0 := Nat.floor_eq_zero.mpr (by linarith)
  rw [nearestEven, hf]
  simp only [Nat.cast_zero, sub_zero]
  rw [if_pos (by linarith)]

/-! The grid -/

/-- The exponent of the grid that a number is on. Its mantissa has 53 bits, fewer only among the smallest
numbers. -/
def grid (v : ℚ) : ℤ := max (Int.log 2 v - 52) (-1074)

theorem targetExponent_eq (t : ℤ) : Format.binary64.targetExponent t = max (t - 53) (-1074) := rfl

theorem two_zpow_le (hv : 0 < v) : (2 : ℚ) ^ e ≤ v ↔ e ≤ Int.log 2 v := by
  exact_mod_cast Int.zpow_le_iff_le_log (b := 2) (by decide) hv

theorem lt_two_zpow (hv : 0 < v) : v < (2 : ℚ) ^ e ↔ Int.log 2 v < e := by
  exact_mod_cast Int.lt_zpow_iff_log_lt (b := 2) (by decide) hv

theorem log_mantissa (hm : 0 < m) (h : (m : ℚ) ≤ v / 2 ^ e) (h' : v / 2 ^ e < m + 1) :
    Int.log 2 v = m.log2 + e := by
  have he : (0 : ℚ) < 2 ^ e := by positivity
  have hv : 0 < v := by
    rw [le_div_iff₀ he] at h
    exact lt_of_lt_of_le (by positivity) h
  have low : (2 : ℚ) ^ ((m.log2 : ℤ) + e) ≤ v := by
    rw [zpow_add₀ two_ne_zero, ← le_div_iff₀ he, zpow_natCast]
    exact le_trans (by exact_mod_cast Nat.log2_self_le hm.ne') h
  have high : v < (2 : ℚ) ^ ((m.log2 : ℤ) + e + 1) := by
    rw [show (m.log2 : ℤ) + e + 1 = ((m.log2 + 1 : ℕ) : ℤ) + e by push_cast; ring, zpow_add₀ two_ne_zero,
      ← div_lt_iff₀ he, zpow_natCast]
    refine lt_of_lt_of_le h' ?_
    exact_mod_cast Nat.lt_log2_self
  have hlow := (two_zpow_le hv).mp low
  have hhigh := (lt_two_zpow hv).mp high
  omega

theorem log_lt (hv : 0 < v) (h : v / 2 ^ e < 1) : Int.log 2 v < e := by
  rw [div_lt_one (by positivity)] at h
  exact (lt_two_zpow hv).mp h

theorem target_eq (hv : 0 < v) (h : ⌊v / 2 ^ e⌋₊ = m) (he : e ≤ grid v) :
    Format.binary64.targetExponent (totalExponent m e) = grid v := by
  have hq : 0 ≤ v / 2 ^ e := by positivity
  obtain ⟨low, high⟩ := (Nat.floor_eq_iff hq).mp h
  rw [grid] at he
  rw [targetExponent_eq, totalExponent, grid]
  rcases Nat.eq_zero_or_pos m with rfl | hm
  · have := log_lt hv (by simpa using high)
    simp only [Nat.log2_zero]
    omega
  · have := log_mantissa hm low high
    omega

theorem le_grid (hv : 0 < v) (h : 2 ^ (e + 52) ≤ v) : e ≤ grid v := by
  have := (two_zpow_le hv).mp h
  rw [grid]
  omega

theorem below_grid (hv : 0 < v) : v / 2 ^ grid v < 2 ^ 53 := by
  rw [div_lt_iff₀ (by positivity), ← zpow_natCast, ← zpow_add₀ two_ne_zero, lt_two_zpow hv, grid]
  omega

theorem above_grid (hv : 0 < v) : grid v = -1074 ∨ 2 ^ 52 ≤ v / 2 ^ grid v := by
  by_cases hg : grid v = -1074
  · exact .inl hg
  · right
    rw [le_div_iff₀ (by positivity), ← zpow_natCast, ← zpow_add₀ two_ne_zero, two_zpow_le hv]
    rw [grid] at hg ⊢
    omega

/-! Rounding -/

def nearest (v : ℚ) : UnpackedFloat :=
  let n := nearestEven (v / 2 ^ grid v)
  if h : n = 0 then .zero .positive
  else if n = 2 ^ 53 then .finite .positive (2 ^ 52) (grid v + 1) (by decide)
  else .finite .positive n (grid v) (Nat.pos_of_ne_zero h)

theorem shift_fits (hm : m < 2 ^ 53) (he : -1074 ≤ e) :
    shiftToTargetExponent .binary64 m e .exact = (⟨m, false, false⟩, e) := by
  have hlog : m.log2 ≤ 52 := by
    rcases Nat.eq_zero_or_pos m with rfl | hpos
    · decide
    · have := (Nat.log2_lt hpos.ne').mpr hm
      omega
  have hshift : (Format.binary64.targetExponent (totalExponent m e) - e).toNat = 0 := by
    rw [targetExponent_eq, totalExponent]
    omega
  simp [shiftToTargetExponent, shiftToExponent, hshift, HShiftRight.hShiftRight, Nat.repeat,
    ExtendedMantissa.ofMantissaAndAccuracy]

theorem shift_carry (he : -1074 ≤ e) :
    shiftToTargetExponent .binary64 (2 ^ 53) e .exact = (⟨2 ^ 52, false, false⟩, e + 1) := by
  have hshift : (Format.binary64.targetExponent (totalExponent (2 ^ 53) e) - e).toNat = 1 := by
    rw [targetExponent_eq, totalExponent, Nat.log2_two_pow]
    omega
  rw [shiftToTargetExponent, shiftToExponent, hshift]
  rfl

theorem round_eq {a : Accuracy} (hv : 0 < v) (h : Stands (.ofMantissaAndAccuracy m a) (v / 2 ^ e))
    (he : e ≤ grid v) : roundWithAccuracy .binary64 .positive m e a = nearest v := by
  have hm : (ExtendedMantissa.ofMantissaAndAccuracy m a).mantissa = m := by
    cases a with
    | exact => rfl
    | inexact o => cases o <;> rfl
  have hmin : -1074 ≤ grid v := le_max_right _ _
  have hk : e + ((grid v - e).toNat : ℤ) = grid v := by omega
  have hq : v / 2 ^ e / 2 ^ (grid v - e).toNat = v / 2 ^ grid v := by
    rw [div_div, ← zpow_natCast, ← zpow_add₀ two_ne_zero, hk]
  have first : shiftToTargetExponent .binary64 m e a =
      (ExtendedMantissa.ofMantissaAndAccuracy m a >>> (grid v - e).toNat, grid v) := by
    rw [shiftToTargetExponent, target_eq hv (h.floor.trans hm) he, shiftToExponent, hk]
  have hr := (hq ▸ h.shiftRight (grid v - e).toNat).rounded
  have hle : nearestEven (v / 2 ^ grid v) ≤ 2 ^ 53 :=
    nearestEven_le (by positivity) (by exact_mod_cast below_grid hv)
  rw [roundWithAccuracy, first]
  simp only [hr, nearest]
  rcases Nat.lt_or_eq_of_le hle with hn | hn
  · simp only [shift_fits hn hmin, if_neg hn.ne]
  · simp only [hn, shift_carry hmin]
    rfl

/-! Numbers on the grid -/

structure Canonical (m : ℕ) (e : ℤ) : Prop where
  pos : 0 < m
  fits : m < 2 ^ 53
  least : -1074 ≤ e
  full : 2 ^ 52 ≤ m ∨ e = -1074

theorem log_value (hm : 0 < m) (e : ℤ) : Int.log 2 (m * 2 ^ e : ℚ) = m.log2 + e := by
  have hq : (m * 2 ^ e : ℚ) / 2 ^ e = m := mul_div_cancel_right₀ _ (by positivity)
  exact log_mantissa hm hq.ge (by rw [hq]; exact lt_add_one _)

theorem Canonical.grid (h : Canonical m e) : grid (m * 2 ^ e) = e := by
  obtain ⟨hpos, hfits, hleast, hfull⟩ := h
  have hlog := (Nat.log2_lt hpos.ne').mpr hfits
  rw [Decimal.grid, log_value hpos]
  rcases hfull with h | h
  · have := (Nat.le_log2 hpos.ne').mpr h
    omega
  · omega

theorem nearest_canonical (h : Canonical m e) : nearest (m * 2 ^ e) = .finite .positive m e h.pos := by
  have hn : nearestEven (m * 2 ^ e / 2 ^ e) = m := by
    rw [mul_div_cancel_right₀ _ (by positivity), nearestEven_natCast]
  simp only [nearest, h.grid, hn, h.pos.ne', h.fits.ne, if_false, dite_false]

theorem exists_canonical (hm : 0 < m) (h : m < 2 ^ 53) :
    ∃ n k : ℕ, Canonical n (-k) ∧ 2 ^ 52 ≤ n ∧ (n * 2 ^ (-k : ℤ) : ℚ) = m := by
  have hlog := (Nat.log2_lt hm.ne').mpr h
  obtain ⟨k, hk⟩ : ∃ k, m.log2 + k = 52 := ⟨52 - m.log2, by omega⟩
  have hfull : 2 ^ 52 ≤ m * 2 ^ k := by
    rw [← hk, pow_add]
    exact Nat.mul_le_mul_right _ (Nat.log2_self_le hm.ne')
  have hfits : m * 2 ^ k < 2 ^ 53 := by
    rw [show 53 = m.log2 + 1 + k by omega, pow_add]
    exact Nat.mul_lt_mul_of_pos_right Nat.lt_log2_self (by positivity)
  refine ⟨m * 2 ^ k, k, ⟨by positivity, hfits, by omega, .inl hfull⟩, hfull, ?_⟩
  rw [zpow_neg, zpow_natCast]
  push_cast
  field_simp

theorem nearest_tiny (hv : 0 < v) (h : v < 2 ^ (-1075 : ℤ)) : nearest v = .zero .positive := by
  have hg : grid v = -1074 := by
    have := (lt_two_zpow hv).mp h
    rw [grid]
    omega
  have hn : nearestEven (v / 2 ^ grid v) = 0 := by
    apply nearestEven_small
    rw [hg, div_lt_iff₀ (by positivity)]
    refine lt_of_lt_of_le h (le_of_eq ?_)
    rw [show (-1074 : ℤ) = 1 + -1075 by rfl, zpow_add₀ two_ne_zero]
    ring
  simp only [nearest, hn, dite_true]

/-! The operations -/

variable {m' : ℕ}

theorem round_finite (hm : 0 < m) (e : ℤ) :
    UnpackedFloat.round .binary64 .positive m e = nearest (m * 2 ^ e) := by
  have hv : (0 : ℚ) < m * 2 ^ e := by positivity
  have ht : Format.binary64.targetExponent (totalExponent m e) = grid (m * 2 ^ e) := by
    rw [targetExponent_eq, totalExponent, grid, log_value hm]
    omega
  rw [UnpackedFloat.round, ht, decreaseExponent]
  apply round_eq hv _ (by omega)
  generalize (e - grid (m * 2 ^ e)).toNat = k
  have hq : (m * 2 ^ e : ℚ) / 2 ^ (e - k) = (m <<< k : ℕ) := by
    rw [Nat.shiftLeft_eq, zpow_sub₀ two_ne_zero, zpow_natCast]
    push_cast
    field_simp
  rw [hq]
  exact stands_exact _

theorem ofNat_nearest (hm : 0 < m) : UnpackedFloat.ofNat .binary64 m = nearest m := by
  rw [UnpackedFloat.ofNat, UnpackedFloat.ofInt, UnpackedFloat.normalize, Int.compare_eq_gt.mpr (by omega)]
  simpa using round_finite hm 0

theorem mul_finite (hm : 0 < m) (e : ℤ) (hm' : 0 < m') (e' : ℤ)
    (hg : e + e' ≤ grid ((m * 2 ^ e) * (m' * 2 ^ e'))) :
    UnpackedFloat.mul .binary64 (.finite .positive m e hm) (.finite .positive m' e' hm') =
      nearest ((m * 2 ^ e) * (m' * 2 ^ e')) := by
  apply round_eq (by positivity) _ hg
  have hq : (m * 2 ^ e : ℚ) * (m' * 2 ^ e') / 2 ^ (e + e') = (m * m' : ℕ) := by
    rw [zpow_add₀ two_ne_zero]
    push_cast
    field_simp
  rw [hq]
  exact stands_exact _

theorem log_quotient (hm : 0 < m) (e : ℤ) (hm' : 0 < m') (e' : ℤ) :
    (m.log2 + e : ℤ) - (m'.log2 + e') - 1 ≤ Int.log 2 ((m * 2 ^ e) / (m' * 2 ^ e') : ℚ) := by
  have low : (2 : ℚ) ^ (m.log2 + e : ℤ) ≤ m * 2 ^ e := (two_zpow_le (by positivity)).mpr (log_value hm e).ge
  have high : (m' * 2 ^ e' : ℚ) < 2 ^ (m'.log2 + e' + 1 : ℤ) := by
    rw [lt_two_zpow (by positivity), log_value hm']
    omega
  rw [← two_zpow_le (by positivity), le_div_iff₀ (by positivity)]
  calc (2 : ℚ) ^ (m.log2 + e - (m'.log2 + e') - 1 : ℤ) * (m' * 2 ^ e')
      ≤ 2 ^ (m.log2 + e - (m'.log2 + e') - 1 : ℤ) * 2 ^ (m'.log2 + e' + 1 : ℤ) := by gcongr
    _ = 2 ^ (m.log2 + e : ℤ) := by
      rw [← zpow_add₀ two_ne_zero]
      congr 1
      ring
    _ ≤ m * 2 ^ e := low

theorem div_finite (hm : 0 < m) (e : ℤ) (hm' : 0 < m') (e' : ℤ) :
    UnpackedFloat.div .binary64 (.finite .positive m e hm) (.finite .positive m' e' hm') =
      nearest ((m * 2 ^ e) / (m' * 2 ^ e')) := by
  have hlog := log_quotient hm e hm' e'
  have htarget : Format.binary64.targetExponent (totalExponent m e - totalExponent m' e') ≤
      grid ((m * 2 ^ e) / (m' * 2 ^ e')) := by
    rw [targetExponent_eq, totalExponent, totalExponent, grid]
    omega
  rw [UnpackedFloat.div, divCore]
  dsimp only
  generalize Format.binary64.targetExponent (totalExponent m e - totalExponent m' e') = t at *
  apply round_eq (by positivity) _ (by omega)
  have hk : e = e' + min (e - e') t + ((e - e' - min (e - e') t).toNat : ℤ) := by omega
  generalize (e - e' - min (e - e') t).toNat = k at *
  generalize min (e - e') t = s at *
  have hq : (m * 2 ^ e : ℚ) / (m' * 2 ^ e') / 2 ^ s = ((m <<< k : ℕ) : ℚ) / m' := by
    rw [hk, Nat.shiftLeft_eq, zpow_add₀ two_ne_zero, zpow_add₀ two_ne_zero, zpow_natCast]
    push_cast
    field_simp
  rw [hq]
  exact stands_fraction _ hm'

end ScrapeRelay.Decimal

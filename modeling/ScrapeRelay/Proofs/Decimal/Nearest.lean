import ScrapeRelay.Proofs.Decimal.Packing

/-!
A decimal is read as the floating-point number nearest to it, whichever of the ways to compute it is taken.
-/

namespace ScrapeRelay.Decimal

open Float.Model Float.Model.UnpackedFloat

variable {x : Float} {m k : ℕ} {e : ℤ} {v : ℚ}

def rounded (v : ℚ) : Float := .ofModel (.pack (nearest v))

theorem rounded_of_unpack {hm : 0 < m} (h : x.toModel.unpack = .finite .positive m e hm) :
    rounded (m * 2 ^ e) = x := by
  rw [rounded, nearest_canonical (canonical_unpack h).1, ← h, ofModel_pack_unpack]

theorem rounded_tiny (hv : 0 < v) (h : v < 2 ^ (-1075 : ℤ)) : rounded v = 0 := by
  rw [rounded, nearest_tiny hv h]
  decide +kernel

theorem rounded_large (h : 2 ^ (1024 : ℤ) ≤ v) : rounded v = .ofModel (.pack (.infinity .positive)) := by
  have hv : 0 < v := lt_of_lt_of_le (by positivity) h
  have hg : 972 ≤ grid v := le_grid hv h
  have hn : 2 ^ 52 ≤ nearestEven (v / 2 ^ grid v) :=
    le_nearestEven (by exact_mod_cast (above_grid hv).resolve_left (by omega))
  rw [rounded, nearest, dif_neg (by omega)]
  simp only [Float.Model.pack]
  congr 3
  split
  · exact pack_overflow (by omega)
  · exact pack_overflow hg

/-! Whole numbers and powers of ten -/

def Whole (u : UnpackedFloat) (n : ℕ) : Prop :=
  ∃ m e, ∃ hm : 0 < m, u = .finite .positive m e hm ∧ 2 ^ 52 ≤ m ∧ (m * 2 ^ e : ℚ) = n

def isWhole (u : UnpackedFloat) (n : ℕ) : Bool :=
  match u with
  | .finite .positive m e _ => 2 ^ 52 ≤ m && -52 ≤ e && m * 2 ^ (e + 52).toNat == n * 2 ^ 52
  | _ => false

theorem whole_of {u : UnpackedFloat} {n : ℕ} (h : isWhole u n = true) : Whole u n := by
  unfold isWhole at h
  split at h
  · rename_i m e hm
    simp only [Bool.and_eq_true, decide_eq_true_eq, beq_iff_eq] at h
    obtain ⟨⟨hfull, he⟩, hn⟩ := h
    refine ⟨m, e, hm, rfl, hfull, ?_⟩
    have hq : (m : ℚ) * 2 ^ (e + 52).toNat = n * 2 ^ 52 := by exact_mod_cast hn
    rw [← zpow_natCast, Int.toNat_of_nonneg (by omega), zpow_add₀ two_ne_zero, ← mul_assoc] at hq
    exact mul_right_cancel₀ (by positivity) hq
  · cases h

theorem powers_isWhole : ∀ i : Fin Float.exactlyRepresentablePowersOfTen.size,
    isWhole Float.exactlyRepresentablePowersOfTen[i].toModel.unpack (10 ^ i.val) = true := by
  decide +kernel

theorem power_whole (h : k < Float.exactlyRepresentablePowersOfTen.size) :
    Whole Float.exactlyRepresentablePowersOfTen[k].toModel.unpack (10 ^ k) :=
  whole_of (powers_isWhole ⟨k, h⟩)

theorem natural_whole (hm : 0 < m) (h : m < 2 ^ 53) : Whole m.toUInt64.toFloat.toModel.unpack m := by
  have hword : m.toUInt64.toNat = m := Nat.mod_eq_of_lt (by omega)
  obtain ⟨n, k, canonical, hfull, hv⟩ := exists_canonical hm h
  refine ⟨n, -k, canonical.pos, ?_, hfull, hv⟩
  change UnpackedFloat.unpack .binary64
    (UnpackedFloat.pack .binary64 (UnpackedFloat.ofNat .binary64 m.toUInt64.toNat)) = _
  rw [hword, ofNat_nearest hm, ← hv, nearest_canonical canonical, unpack_pack canonical (by omega)]

/-! Decimals -/

theorem mul_whole {a b : Float} {n n' : ℕ} (ha : Whole a.toModel.unpack n) (hb : Whole b.toModel.unpack n') :
    a * b = rounded (n * n') := by
  obtain ⟨m, e, hm, ha, hfull, hn⟩ := ha
  obtain ⟨m', e', hm', hb, hfull', hn'⟩ := hb
  have hprod : 2 ^ (e + e' + 52) ≤ (m * 2 ^ e : ℚ) * (m' * 2 ^ e') := by
    have hq : (2 : ℚ) ^ 52 ≤ m * m' := by exact_mod_cast le_trans hfull (Nat.le_mul_of_pos_right m hm')
    rw [mul_mul_mul_comm, ← zpow_add₀ two_ne_zero, zpow_add₀ two_ne_zero (e + e'), mul_comm]
    gcongr
    exact hq
  change Float.ofModel (.pack (UnpackedFloat.mul .binary64 a.toModel.unpack b.toModel.unpack)) = _
  rw [ha, hb, mul_finite hm e hm' e' (le_grid (by positivity) hprod), hn, hn', rounded]

theorem div_whole {a b : Float} {n n' : ℕ} (ha : Whole a.toModel.unpack n) (hb : Whole b.toModel.unpack n') :
    a / b = rounded (n / n') := by
  obtain ⟨m, e, hm, ha, -, hn⟩ := ha
  obtain ⟨m', e', hm', hb, -, hn'⟩ := hb
  change Float.ofModel (.pack (UnpackedFloat.div .binary64 a.toModel.unpack b.toModel.unpack)) = _
  rw [ha, hb, div_finite hm e hm' e', hn, hn', rounded]

theorem ofScientific_up (hm : 0 < m) (hk : k ≤ 2048) :
    UnpackedFloat.ofScientific .binary64 m k = nearest (m * 10 ^ k) := by
  have hv : ((m <<< 53 : ℕ) * 2 ^ (-53 : ℤ) * ((10 ^ k : ℕ) * 2 ^ (0 : ℤ)) : ℚ) = m * 10 ^ k := by
    rw [Nat.shiftLeft_eq, zpow_neg]
    push_cast
    field_simp
  have hone : (1 : ℚ) ≤ m * 10 ^ k := by exact_mod_cast Nat.mul_pos hm (by positivity)
  have hg : -53 + 0 ≤ grid ((m <<< 53 : ℕ) * 2 ^ (-53 : ℤ) * ((10 ^ k : ℕ) * 2 ^ (0 : ℤ))) := by
    rw [hv]
    exact le_grid (by positivity) (le_trans (by norm_num) hone)
  rw [UnpackedFloat.ofScientific, dif_neg hm.ne', if_neg (by norm_num; omega), if_neg (by norm_num; omega),
    if_pos (by omega), ← hv]
  exact mul_finite _ (-53) _ 0 hg

theorem ofScientific_down (hm : 0 < m) (h : 0 < k) (hk : k ≤ 2048 + m.log2) :
    UnpackedFloat.ofScientific .binary64 m (-k) = nearest (m / 10 ^ k) := by
  have hv : ((m : ℕ) * 2 ^ (0 : ℤ) / ((10 ^ k : ℕ) * 2 ^ (0 : ℤ)) : ℚ) = m / 10 ^ k := by simp
  rw [UnpackedFloat.ofScientific, dif_neg hm.ne', if_neg (by norm_num), if_neg (by norm_num; omega),
    if_neg (by omega), ← hv]
  simp only [neg_neg, Int.toNat_natCast]
  exact div_finite hm 0 _ 0

theorem ofScientific_rounded (hm : 0 < m) (hk : k ≤ 2048) :
    Float.ofScientific m false k = rounded (m * 10 ^ k) := by
  rw [Float.ofScientific]
  split
  · rename_i h
    simp only [Bool.false_eq_true, if_false]
    rw [mul_whole (natural_whole hm h.1) (power_whole _)]
    push_cast
    rfl
  · simp only [Bool.false_eq_true, if_false, rounded, ← ofScientific_up hm hk]
    rfl

theorem ofScientific_fraction (hm : 0 < m) (hk : k ≤ 2048 + m.log2) :
    Float.ofScientific m true k = rounded (m / 10 ^ k) := by
  rw [Float.ofScientific]
  split
  · rename_i h
    simp only [if_true]
    rw [div_whole (natural_whole hm h.1) (power_whole _)]
    push_cast
    rfl
  · simp only [if_true, rounded]
    rcases Nat.eq_zero_or_pos k with rfl | hpos
    · have := ofScientific_up hm (Nat.zero_le 2048)
      simp only [pow_zero, mul_one, div_one] at this ⊢
      rw [← this]
      rfl
    · rw [← ofScientific_down hm hpos hk, Int.negOfNat_eq]
      rfl

theorem two_zpow_le_ten_pow {k : ℕ} (h : e ≤ 3 * k) : (2 : ℚ) ^ e ≤ 10 ^ k := by
  calc (2 : ℚ) ^ e ≤ 2 ^ ((3 * k : ℕ) : ℤ) := zpow_le_zpow_right₀ one_le_two (by omega)
    _ = 8 ^ k := by rw [zpow_natCast, pow_mul]; norm_num
    _ ≤ 10 ^ k := by gcongr; norm_num

theorem magnitude_large (hm : 0 < m) (he : 400 < e) : rounded (m * 10 ^ e) = rounded (1 * 10 ^ 400) := by
  have hten : (2 : ℚ) ^ (1024 : ℤ) ≤ 10 ^ 400 := two_zpow_le_ten_pow (by decide)
  have hm' : (1 : ℚ) ≤ m := by exact_mod_cast hm
  have hv : (10 : ℚ) ^ 400 ≤ m * 10 ^ e := by
    calc (10 : ℚ) ^ 400 = 10 ^ ((400 : ℕ) : ℤ) := (zpow_natCast _ _).symm
      _ ≤ 10 ^ e := zpow_le_zpow_right₀ (by norm_num) (by omega)
      _ ≤ m * 10 ^ e := le_mul_of_one_le_left (by positivity) hm'
  rw [rounded_large (le_trans hten hv), rounded_large (le_trans hten (one_mul _).ge)]

theorem magnitude_tiny (hm : 0 < m) (he : e + m.log2 + 1 < -400) : rounded (m * 10 ^ e) = 0 := by
  have hten : (10 : ℚ) ^ (-(401 : ℕ) : ℤ) < 2 ^ (-1075 : ℤ) := by
    rw [zpow_neg, zpow_neg, zpow_natCast]
    apply (inv_lt_inv₀ (by positivity) (by positivity)).mpr
    exact lt_of_lt_of_le (zpow_lt_zpow_right₀ one_lt_two (by decide : (1075 : ℤ) < 1076))
      (two_zpow_le_ten_pow (by decide))
  have hlog : (m : ℚ) ≤ 10 ^ (m.log2 + 1) := by
    have : m ≤ 10 ^ (m.log2 + 1) := le_trans Nat.lt_log2_self.le (Nat.pow_le_pow_left (by decide) _)
    exact_mod_cast this
  have hv : (m * 10 ^ e : ℚ) ≤ 10 ^ (-(401 : ℕ) : ℤ) := by
    calc (m * 10 ^ e : ℚ) ≤ 10 ^ (m.log2 + 1) * 10 ^ e := by gcongr
      _ = 10 ^ ((m.log2 + 1 : ℕ) + e : ℤ) := by rw [zpow_add₀ (by norm_num), zpow_natCast]
      _ ≤ 10 ^ (-(401 : ℕ) : ℤ) := zpow_le_zpow_right₀ (by norm_num) (by omega)
  exact rounded_tiny (by positivity) (lt_of_le_of_lt hv hten)

theorem magnitude_rounded (hm : 0 < m) (e : ℤ) : magnitude m e = rounded (m * 10 ^ e) := by
  rw [magnitude, if_neg hm.ne']
  split
  · rename_i he
    rw [magnitude_large hm he, ofScientific_rounded one_pos (by decide), Nat.cast_one]
  · split
    · rename_i ht
      rw [magnitude_tiny hm ht]
    · split
      · obtain ⟨k, rfl⟩ : ∃ k : ℕ, e = -k := ⟨e.natAbs, by omega⟩
        rw [Int.natAbs_neg, Int.natAbs_natCast, ofScientific_fraction hm (by omega), zpow_neg, zpow_natCast,
          div_eq_mul_inv]
      · obtain ⟨k, rfl⟩ : ∃ k : ℕ, e = k := ⟨e.natAbs, by omega⟩
        rw [Int.natAbs_natCast, ofScientific_rounded hm (by omega), zpow_natCast]

theorem magnitude_congr {m' : ℕ} {e' : ℤ} (h : (m * 10 ^ e : ℚ) = m' * 10 ^ e') :
    magnitude m e = magnitude m' e' := by
  have hzero (n : ℕ) (f : ℤ) : (n * 10 ^ f : ℚ) = 0 ↔ n = 0 := by
    simp [zpow_ne_zero]
  rcases Nat.eq_zero_or_pos m with rfl | hm
  · obtain rfl := (hzero m' e').mp (by rw [← h]; simp)
    rfl
  · have hm' : 0 < m' := Nat.pos_of_ne_zero fun hc => hm.ne' ((hzero m e).mp (h.trans ((hzero m' e').mpr hc)))
    rw [magnitude_rounded hm, magnitude_rounded hm', h]

end ScrapeRelay.Decimal

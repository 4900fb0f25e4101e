import ScrapeRelay.Decimal.Shortest
import ScrapeRelay.Proofs.Decimal.Rounding

/-!
Floating-point numbers and their bits: each is packed from its own sign, mantissa and exponent.
-/

namespace ScrapeRelay.Decimal

open Float.Model Float.Model.UnpackedFloat

variable {x : Float} {b : BitVec 64} {s : Sign} {m : ℕ} {e : ℤ} {v : ℚ}

/-! The parts of a word -/

theorem mantissa_toNat (b : BitVec 64) : (@unpackMantissa .binary64 b).toNat = b.toNat % 2 ^ 52 := by
  simp [unpackMantissa]

theorem exponent_toNat (b : BitVec 64) : (@unpackExponent .binary64 b).toNat = b.toNat / 2 ^ 52 % 2 ^ 11 := by
  simp [unpackExponent, Nat.shiftRight_eq_div_pow]

theorem sign_toNat (b : BitVec 64) : (@unpackSign .binary64 b).toNat = b.toNat / 2 ^ 63 := by
  have := b.isLt
  simp [unpackSign, Nat.shiftRight_eq_div_pow]
  omega

theorem exponent_eq_iff (b : BitVec 64) (c : BitVec 11) :
    @unpackExponent .binary64 b = c ↔ b.toNat / 2 ^ 52 % 2 ^ 11 = c.toNat := by
  rw [← BitVec.toNat_inj, exponent_toNat]

theorem implicit_toNat (m : BitVec 52) : (1#1 ++ m).toNat = 2 ^ 52 + m.toNat := by
  rw [BitVec.toNat_append, ← Nat.shiftLeft_add_eq_or_of_lt m.isLt]
  rfl

theorem exponentBias_eq : (Format.binary64.exponentBias : ℤ) = 1023 := rfl

/-! What a word is unpacked to -/

theorem unpack_finite {hm : 0 < m} (h : UnpackedFloat.unpack .binary64 b = .finite s m e hm) :
    s = .ofBitVec (@unpackSign .binary64 b) ∧
      (b.toNat / 2 ^ 52 % 2 ^ 11 = 0 ∧ m = b.toNat % 2 ^ 52 ∧ e = -1074 ∨
        0 < b.toNat / 2 ^ 52 % 2 ^ 11 ∧ b.toNat / 2 ^ 52 % 2 ^ 11 < 2047 ∧
          m = 2 ^ 52 + b.toNat % 2 ^ 52 ∧ e = (b.toNat / 2 ^ 52 % 2 ^ 11 : ℕ) - 1075) := by
  simp only [UnpackedFloat.unpack, exponentBias_eq, exponent_toNat] at h
  split at h
  · split at h <;> cases h
  · rename_i hinf
    rw [exponent_eq_iff] at hinf
    simp only [BitVec.neg_one_eq_allOnes, BitVec.toNat_allOnes] at hinf
    split at h
    · rename_i hzero
      rw [exponent_eq_iff] at hzero
      split at h
      · cases h
      · injection h with hs hm he
        rw [mantissa_toNat] at hm
        refine ⟨hs.symm, .inl ⟨hzero, hm.symm, ?_⟩⟩
        rw [hzero] at he
        exact he.symm
    · rename_i hzero
      rw [exponent_eq_iff] at hzero
      injection h with hs hm he
      rw [implicit_toNat, mantissa_toNat] at hm
      exact ⟨hs.symm, .inr ⟨Nat.pos_of_ne_zero hzero, by omega, hm.symm, he.symm⟩⟩

theorem unpack_zero (h : UnpackedFloat.unpack .binary64 b = .zero s) :
    s = .ofBitVec (@unpackSign .binary64 b) := by
  simp only [UnpackedFloat.unpack] at h
  split at h
  · split at h <;> cases h
  · split at h
    · split at h
      · injection h with hs
        exact hs.symm
      · cases h
    · cases h

theorem canonical_unpack {hm : 0 < m} (h : UnpackedFloat.unpack .binary64 b = .finite s m e hm) :
    Canonical m e ∧ e ≤ 971 := by
  obtain ⟨-, ⟨-, rfl, rfl⟩ | ⟨hpos, hinf, rfl, rfl⟩⟩ := unpack_finite h
  · exact ⟨⟨hm, by omega, by omega, .inr rfl⟩, by omega⟩
  · exact ⟨⟨hm, by omega, by omega, .inl (by omega)⟩, by omega⟩

theorem finite_cases (h : x.isFinite = true) :
    (∃ s, x.toModel.unpack = .zero s) ∨ ∃ s m e, ∃ hm : 0 < m, x.toModel.unpack = .finite s m e hm := by
  change x.toModel.unpack.isFinite = true at h
  cases hu : x.toModel.unpack with
  | notANumber => simp [hu, UnpackedFloat.isFinite] at h
  | infinity s => simp [hu, UnpackedFloat.isFinite] at h
  | zero s => exact .inl ⟨s, rfl⟩
  | finite s m e hm => exact .inr ⟨s, m, e, hm, rfl⟩

theorem ofModel_pack_unpack (x : Float) : Float.ofModel (.pack x.toModel.unpack) = x := Float.ofBits_toBits x

theorem eq_of_unpack {y : Float} (h : y.toModel.unpack = x.toModel.unpack) : y = x := by
  rw [← ofModel_pack_unpack x, ← ofModel_pack_unpack y, h]

/-! Numbers that are not finite -/

theorem infinity_eq : (1 / 0 : Float) = .ofModel (.pack (.infinity .positive)) := by decide +kernel

theorem negative_infinity_eq : (-1 / 0 : Float) = .ofModel (.pack (.infinity .negative)) := by decide +kernel

theorem unbounded_cases (h : x.isFinite = false) : x.isNaN = true ∨ x = 1 / 0 ∨ x = -1 / 0 := by
  change x.toModel.unpack.isFinite = false at h
  cases hu : x.toModel.unpack with
  | notANumber =>
    left
    change x.toModel.unpack.isNaN = true
    rw [hu]
    rfl
  | infinity s =>
    right
    rw [infinity_eq, negative_infinity_eq, ← ofModel_pack_unpack x, hu]
    cases s with
    | positive => exact .inl rfl
    | negative => exact .inr rfl
  | zero s => simp [hu, UnpackedFloat.isFinite] at h
  | finite s m e hm => simp [hu, UnpackedFloat.isFinite] at h

/-! Packing -/

theorem pack_subnormal {hm : 0 < m} (h : m < 2 ^ 52) :
    UnpackedFloat.pack .binary64 (.finite s m (-1074) hm) = packComponents .binary64 s 0#11 (.ofNat 52 m) := by
  have hlog := (Nat.log2_lt hm.ne').mpr h
  simp only [UnpackedFloat.pack]
  rw [if_neg (by decide), if_neg]
  simp only [Format.mantissaBits]
  omega

theorem pack_normal {hm : 0 < m} (h : 2 ^ 52 ≤ m) (hfits : m < 2 ^ 53) (he : -1074 ≤ e) (hmax : e ≤ 971) :
    UnpackedFloat.pack .binary64 (.finite s m e hm) =
      packComponents .binary64 s (.ofNat 11 (e + 1075).toNat) (.ofNat 52 m) := by
  have hlog := (Nat.log2_eq_iff hm.ne').mpr ⟨h, hfits⟩
  have hb : (e + 1023 + (52 : ℕ)).toNat = (e + 1075).toNat := by omega
  simp only [UnpackedFloat.pack, exponentBias_eq, hb]
  rw [if_neg (by norm_num; omega), if_pos]
  simp only [Format.mantissaBits, hlog]

theorem pack_overflow {hm : 0 < m} (he : 972 ≤ e) :
    UnpackedFloat.pack .binary64 (.finite s m e hm) = UnpackedFloat.pack .binary64 (.infinity s) := by
  simp only [UnpackedFloat.pack, exponentBias_eq]
  refine if_pos ?_
  norm_num
  omega

theorem unpack_pack_subnormal (hm : 0 < m) (h : m < 2 ^ 52) :
    UnpackedFloat.unpack .binary64 (UnpackedFloat.pack .binary64 (.finite s m (-1074) hm)) =
      .finite s m (-1074) hm := by
  have hne : BitVec.ofNat 52 m ≠ 0#52 := by
    rw [ne_eq, ← BitVec.toNat_inj, BitVec.toNat_ofNat, Nat.mod_eq_of_lt h]
    exact hm.ne'
  rw [pack_subnormal h, UnpackedFloat.unpack]
  simp only [unpackExponent_packComponents, unpackMantissa_packComponents, unpackSign_packComponents,
    Sign.ofBitVec_toBitVec]
  rw [if_neg (by decide), if_pos trivial, dif_neg hne]
  congr 1
  exact (BitVec.toNat_ofNat ..).trans (Nat.mod_eq_of_lt h)

theorem unpack_pack_normal (hm : 0 < m) (h : 2 ^ 52 ≤ m) (hfits : m < 2 ^ 53) (he : -1074 ≤ e)
    (hmax : e ≤ 971) :
    UnpackedFloat.unpack .binary64 (UnpackedFloat.pack .binary64 (.finite s m e hm)) = .finite s m e hm := by
  have hexp : (BitVec.ofNat 11 (e + 1075).toNat).toNat = (e + 1075).toNat := by
    rw [BitVec.toNat_ofNat, Nat.mod_eq_of_lt (by omega)]
  rw [pack_normal h hfits he hmax, UnpackedFloat.unpack]
  simp only [unpackExponent_packComponents, unpackMantissa_packComponents, unpackSign_packComponents,
    Sign.ofBitVec_toBitVec, implicit_toNat, hexp, exponentBias_eq]
  rw [if_neg, if_neg]
  · congr 1
    · rw [BitVec.toNat_ofNat]
      omega
    · omega
  · rw [← BitVec.toNat_inj, hexp, BitVec.toNat_ofNat]
    omega
  · rw [← BitVec.toNat_inj, hexp, BitVec.neg_one_eq_allOnes, BitVec.toNat_allOnes]
    omega

theorem unpack_pack (h : Canonical m e) (he : e ≤ 971) :
    UnpackedFloat.unpack .binary64 (UnpackedFloat.pack .binary64 (.finite s m e h.pos)) = .finite s m e h.pos := by
  by_cases hm : m < 2 ^ 52
  · obtain rfl : e = -1074 := h.full.resolve_left (by omega)
    exact unpack_pack_subnormal h.pos hm
  · exact unpack_pack_normal h.pos (by omega) h.fits h.least he

/-! Signs -/

theorem isNegative_iff :
    isNegative x = true ↔ Sign.ofBitVec (@unpackSign .binary64 x.toModel.toBits.toBitVec) = .negative := by
  have hsign (c : BitVec 1) : Sign.ofBitVec c = .negative ↔ c.toNat = 1 := by
    rcases BitVec.eq_zero_or_eq_one c with rfl | rfl <;> simp [Sign.ofBitVec]
  have hbits : x.toBits.toNat = x.toModel.toBits.toBitVec.toNat := rfl
  have := x.toModel.toBits.toBitVec.isLt
  rw [hsign, sign_toNat, isNegative, hbits, decide_eq_true_eq]
  omega

theorem isNegative_zero (h : x.toModel.unpack = .zero s) : isNegative x = true ↔ s = .negative := by
  rw [isNegative_iff, ← unpack_zero h]

theorem isNegative_finite {hm : 0 < m} (h : x.toModel.unpack = .finite s m e hm) :
    isNegative x = true ↔ s = .negative := by
  rw [isNegative_iff, ← (unpack_finite h).1]

theorem unsigned_cases (h : x.isFinite = true) (hn : isNegative x = false) :
    x.toModel.unpack = .zero .positive ∨
      ∃ m e, ∃ hm : 0 < m, x.toModel.unpack = .finite .positive m e hm := by
  rcases finite_cases h with ⟨s, hu⟩ | ⟨s, m, e, hm, hu⟩
  · cases s with
    | positive => exact .inl hu
    | negative => simp [(isNegative_zero hu).mpr rfl] at hn
  · cases s with
    | positive => exact .inr ⟨m, e, hm, hu⟩
    | negative => simp [(isNegative_finite hu).mpr rfl] at hn

theorem unpack_neg (h : x.isFinite = true) : (-x).toModel.unpack = x.toModel.unpack.neg := by
  change UnpackedFloat.unpack .binary64 (UnpackedFloat.pack .binary64 x.toModel.unpack.neg) = _
  rcases finite_cases h with ⟨s, hu⟩ | ⟨s, m, e, hm, hu⟩
  · rw [hu]
    cases s <;> rfl
  · obtain ⟨canonical, hmax⟩ := canonical_unpack hu
    rw [hu]
    exact unpack_pack canonical hmax

theorem isFinite_neg (h : x.isFinite = true) : (-x).isFinite = true := by
  change (-x).toModel.unpack.isFinite = true
  rw [unpack_neg h]
  rcases finite_cases h with ⟨s, hu⟩ | ⟨s, m, e, hm, hu⟩ <;> rw [hu] <;> rfl

theorem neg_neg_of_finite (h : x.isFinite = true) : - -x = x := by
  apply eq_of_unpack
  rw [unpack_neg (isFinite_neg h), unpack_neg h]
  rcases finite_cases h with ⟨s, hu⟩ | ⟨s, m, e, hm, hu⟩ <;> rw [hu] <;> cases s <;> rfl

theorem isNegative_neg (h : x.isFinite = true) (hn : isNegative x = true) : isNegative (-x) = false := by
  rw [← Bool.not_eq_true]
  have hneg := unpack_neg h
  rcases finite_cases h with ⟨s, hu⟩ | ⟨s, m, e, hm, hu⟩
  · obtain rfl := (isNegative_zero hu).mp hn
    rw [hu] at hneg
    exact (isNegative_zero hneg).not.mpr nofun
  · obtain rfl := (isNegative_finite hu).mp hn
    rw [hu] at hneg
    exact (isNegative_finite hneg).not.mpr nofun

end ScrapeRelay.Decimal

import ScrapeRelay.Proofs.Decimal.Packing

/-!
The order of floating-point numbers is that of the numbers that they stand for, and what is not a number is in
no order to anything.
-/

namespace ScrapeRelay.Decimal

open Float.Model Float.Model.UnpackedFloat

abbrev Extended : Type := WithBot (WithTop ℚ)

def rational (v : ℚ) : Extended := ((v : WithTop ℚ) : WithBot (WithTop ℚ))

def unpacked? : UnpackedFloat → Option Extended
  | .notANumber => none
  | .infinity .positive => some ⊤
  | .infinity .negative => some ⊥
  | .zero _ => some (rational 0)
  | .finite .positive m e _ => some (rational (m * 2 ^ e))
  | .finite .negative m e _ => some (rational (-(m * 2 ^ e)))

/-- The number that a floating-point number stands for, if it stands for one. -/
def number? (x : Float) : Option Extended := unpacked? x.toModel.unpack

variable {x y : Float} {m n : ℕ} {e f : ℤ} {v w : ℚ}

/-! Finite numbers -/

theorem rational_strictMono : StrictMono rational :=
  fun _ _ h => WithBot.coe_lt_coe.mpr (WithTop.coe_lt_coe.mpr h)

theorem cmp_rational (v w : ℚ) : cmp (rational v) (rational w) = cmp v w := rational_strictMono.cmp_map_eq v w

theorem rational_lt_top (v : ℚ) : rational v < ⊤ := WithBot.coe_lt_coe.mpr (WithTop.coe_lt_top v)

theorem bot_lt_rational (v : ℚ) : ⊥ < rational v := WithBot.bot_lt_coe _

theorem canonical_lt (hm : Canonical m e) (hn : Canonical n f) (h : e < f) : (m * 2 ^ e : ℚ) < n * 2 ^ f := by
  -- The greater exponent is not the least one, and above the least one mantissas are full.
  have full : 2 ^ 52 ≤ n := hn.full.resolve_right (by have := hm.least; omega)
  calc (m * 2 ^ e : ℚ) < 2 ^ 53 * 2 ^ e := by
        gcongr
        exact_mod_cast hm.fits
    _ = 2 ^ 52 * 2 ^ (e + 1) := by
        rw [zpow_add_one₀ (by norm_num)]
        ring
    _ ≤ n * 2 ^ f := by
        gcongr
        · exact_mod_cast full
        · norm_num
        · omega

theorem compare_canonical (hm : Canonical m e) (hn : Canonical n f) :
    (compare e f).then (compare m n) = cmp (m * 2 ^ e : ℚ) (n * 2 ^ f) := by
  rcases lt_trichotomy e f with h | rfl | h
  · rw [compare_lt_iff_lt.mpr h, cmp_eq_lt_iff _ _ |>.mpr (canonical_lt hm hn h)]
    rfl
  · have mono : StrictMono fun k : ℕ => (k * 2 ^ e : ℚ) := by
      intro j k hjk
      have : (j : ℚ) < k := by exact_mod_cast hjk
      exact mul_lt_mul_of_pos_right this (by positivity)
    rw [mono.cmp_map_eq m n, cmp_eq_compare, compare_eq_iff_eq.mpr rfl]
    rfl
  · rw [compare_gt_iff_gt.mpr h, cmp_eq_gt_iff _ _ |>.mpr (canonical_lt hn hm h)]
    rfl

/-! All numbers -/

theorem cmp_rational_top (v : ℚ) : cmp (rational v) ⊤ = .lt := cmp_eq_lt_iff _ _ |>.mpr (rational_lt_top v)

theorem cmp_top_rational (v : ℚ) : cmp ⊤ (rational v) = .gt := cmp_eq_gt_iff _ _ |>.mpr (rational_lt_top v)

theorem cmp_rational_bot (v : ℚ) : cmp (rational v) ⊥ = .gt := cmp_eq_gt_iff _ _ |>.mpr (bot_lt_rational v)

theorem cmp_bot_rational (v : ℚ) : cmp ⊥ (rational v) = .lt := cmp_eq_lt_iff _ _ |>.mpr (bot_lt_rational v)

theorem cmp_of_gt (h : w < v) : cmp (rational v) (rational w) = .gt := by
  rw [cmp_rational, cmp_eq_gt_iff]
  exact h

theorem cmp_of_lt (h : v < w) : cmp (rational v) (rational w) = .lt := by
  rw [cmp_rational, cmp_eq_lt_iff]
  exact h

theorem cmp_neg_neg (v w : ℚ) : cmp (-v) (-w) = cmp w v :=
  StrictAnti.cmp_map_eq (fun _ _ => neg_lt_neg) v w

def Ordered (a b : UnpackedFloat) : Prop :=
  a.compare b = (unpacked? a).bind fun v => (unpacked? b).map (cmp v)

variable {s t : Sign} {hm : 0 < m} {hn : 0 < n}

theorem ordered_finite (hx : Canonical m e) (hy : Canonical n f) :
    Ordered (.finite s m e hm) (.finite t n f hn) := by
  have hv : (0 : ℚ) < m * 2 ^ e := by positivity
  have hw : (0 : ℚ) < n * 2 ^ f := by positivity
  cases s <;> cases t <;> simp only [Ordered, UnpackedFloat.compare, unpacked?, Option.bind_some, Option.map_some]
  case positive.positive => rw [compare_canonical hx hy, cmp_rational]
  case positive.negative => rw [cmp_of_gt (by linarith)]
  case negative.positive => rw [cmp_of_lt (by linarith)]
  case negative.negative => rw [compare_canonical hx hy, cmp_swap, cmp_rational, cmp_neg_neg]

theorem ordered_finite_zero : Ordered (.finite s m e hm) (.zero t) := by
  have hv : (0 : ℚ) < m * 2 ^ e := by positivity
  cases s <;> simp only [Ordered, UnpackedFloat.compare, unpacked?, Option.bind_some, Option.map_some]
  case positive => rw [cmp_of_gt hv]
  case negative => rw [cmp_of_lt (neg_lt_zero.mpr hv)]

theorem ordered_zero_finite : Ordered (.zero t) (.finite s m e hm) := by
  have hv : (0 : ℚ) < m * 2 ^ e := by positivity
  cases s <;> simp only [Ordered, UnpackedFloat.compare, unpacked?, Option.bind_some, Option.map_some]
  case positive => rw [cmp_of_lt hv]
  case negative => rw [cmp_of_gt (neg_lt_zero.mpr hv)]

theorem ordered (x y : Float) : Ordered x.toModel.unpack y.toModel.unpack := by
  -- Signs decide about infinities and zeros, and only two finite numbers need the grid.
  cases hx : x.toModel.unpack with
  | notANumber => rfl
  | infinity s =>
    cases y.toModel.unpack with
    | notANumber => cases s <;> rfl
    | infinity t => cases s <;> cases t <;> unfold Ordered <;> decide
    | zero t => cases s <;> simp [Ordered, UnpackedFloat.compare, unpacked?, cmp_top_rational, cmp_bot_rational]
    | finite t n f hn =>
      cases s <;> cases t <;> simp [Ordered, UnpackedFloat.compare, unpacked?, cmp_top_rational, cmp_bot_rational]
  | zero s =>
    cases y.toModel.unpack with
    | notANumber => rfl
    | infinity t =>
      cases t <;> simp [Ordered, UnpackedFloat.compare, unpacked?, cmp_rational_top, cmp_rational_bot]
    | zero t => simp [Ordered, UnpackedFloat.compare, unpacked?]
    | finite t n f hn => exact ordered_zero_finite
  | finite s m e hm =>
    cases hy : y.toModel.unpack with
    | notANumber => cases s <;> rfl
    | infinity t =>
      cases s <;> cases t <;> simp [Ordered, UnpackedFloat.compare, unpacked?, cmp_rational_top, cmp_rational_bot]
    | zero t => exact ordered_finite_zero
    | finite t n f hn => exact ordered_finite (canonical_unpack hx).1 (canonical_unpack hy).1

theorem compare_eq (x y : Float) : x.toModel.unpack.compare y.toModel.unpack =
    (number? x).bind fun v => (number? y).map (cmp v) := ordered x y

theorem beq_iff : (x == y) = true ↔ ∃ v, number? x = some v ∧ number? y = some v := by
  change (x.toModel.unpack.compare y.toModel.unpack == some .eq) = true ↔ _
  rw [beq_iff_eq, compare_eq]
  cases number? x with
  | none => simp
  | some v =>
    cases number? y with
    | none => simp
    | some w =>
      simp only [Option.bind_some, Option.map_some, Option.some.injEq, cmp_eq_eq_iff, exists_eq_left']
      exact eq_comm

theorem le_iff : x ≤ y ↔ ∃ v w, number? x = some v ∧ number? y = some w ∧ v ≤ w := by
  change decide (x.toModel.unpack.le y.toModel.unpack = true) = true ↔ _
  rw [decide_eq_true_iff, UnpackedFloat.le, compare_eq]
  cases number? x <;> cases number? y <;> simp [Ordering.isLE_iff_ne_gt, cmp_eq_gt_iff]

theorem lt_iff : x < y ↔ ∃ v w, number? x = some v ∧ number? y = some w ∧ v < w := by
  change decide (x.toModel.unpack.lt y.toModel.unpack = true) = true ↔ _
  rw [decide_eq_true_iff, UnpackedFloat.lt, beq_iff_eq, compare_eq]
  cases number? x <;> cases number? y <;> simp [cmp_eq_lt_iff]

theorem number?_eq_none : number? x = none ↔ x.isNaN = true := by
  change _ ↔ x.toModel.unpack.isNaN = true
  rw [number?]
  cases x.toModel.unpack with
  | notANumber => exact ⟨fun _ => rfl, fun _ => rfl⟩
  | infinity s => cases s <;> simp [unpacked?, UnpackedFloat.isNaN]
  | zero s => simp [unpacked?, UnpackedFloat.isNaN]
  | finite s m e hm => cases s <;> simp [unpacked?, UnpackedFloat.isNaN]

theorem number?_ne_some {v : Extended} (h : x.isNaN = true) : number? x ≠ some v := by
  rw [number?_eq_none.mpr h]
  nofun

end ScrapeRelay.Decimal

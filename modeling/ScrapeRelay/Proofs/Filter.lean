import ScrapeRelay.Collector.Spec
import ScrapeRelay.Proofs.Decimal.Order

/-!
What filters drop, said with the numbers that their values stand for, and how chains of filters are put together.
-/

namespace ScrapeRelay

open Decimal (number?)

variable {m : Metric} {x : Float}

/-! Chains -/

namespace Rule

variable {c c' : List Rule}

theorem shouldDrop_iff : shouldDrop c m = true ↔ ∃ r ∈ c, r.matchesMetric m = true := by
  rw [shouldDrop, firstMatch, Option.isSome_map, List.find?_isSome]

theorem firstMatch_append (c c' : List Rule) (m : Metric) :
    firstMatch (c ++ c') m = (firstMatch c m).or (firstMatch c' m) := by
  rw [firstMatch, List.find?_append, Option.map_or, firstMatch, firstMatch]

theorem shouldDrop_congr (h : ∀ r, r ∈ c ↔ r ∈ c') (m : Metric) : shouldDrop c m = shouldDrop c' m := by
  rw [Bool.eq_iff_iff, shouldDrop_iff, shouldDrop_iff]
  simp only [h]

theorem shouldDrop_append (h : shouldDrop c m = true) (c' : List Rule) : shouldDrop (c ++ c') m = true := by
  obtain ⟨r, hr, hm⟩ := shouldDrop_iff.mp h
  exact shouldDrop_iff.mpr ⟨r, List.mem_append_left _ hr, hm⟩

end Rule

/-! Values -/

def Metric.HasScalar (m : Metric) (x : Float) : Prop :=
  m.kind = .counter ∧ m.values.get? "counter" = some x ∨ m.kind = .gauge ∧ m.values.get? "gauge" = some x

namespace Filter

theorem subject?_eq_some : subject? m = some x ↔ m.HasScalar x := by
  unfold subject? Metric.value Metric.HasScalar
  cases m.kind <;> simp [Metric.Kind.entry?]

theorem matchesMetric_iff {f : Filter} :
    f.matchesMetric m = true ↔ ∃ x, m.HasScalar x ∧ f.drops x = true := by
  simp only [matchesMetric, Option.any_eq_true, subject?_eq_some]

end Filter

namespace Collector

def Clip.Contains (c : Clip) (x : Float) : Prop :=
  ∃ low v high, number? c.min = some low ∧ number? x = some v ∧ number? c.max = some high ∧
    v ∈ if c.inclusive then Set.Icc low high else Set.Ioo low high

namespace Filters

variable {f : Filters}

def Excludes (f : Filters) (x : Float) : Prop :=
  ∃ listed, f.exclude = some listed ∧ ∃ y ∈ listed, ∃ v, number? x = some v ∧ number? y = some v

def Clips (f : Filters) (x : Float) : Prop := ∃ c, f.clip = some c ∧ ¬c.Contains x

theorem drops_exclude {listed : List Float} :
    (Filter.exclude listed).drops x = true ↔
      ∃ y ∈ listed, ∃ v, number? x = some v ∧ number? y = some v := by
  simp only [Filter.drops, List.any_eq_true, Decimal.beq_iff]

theorem between_iff {p q : Prop} [Decidable p] [Decidable q] :
    (!(decide p && decide q)) = true ↔ ¬(p ∧ q) := by
  rw [Bool.not_eq_true', ← Bool.not_eq_true, Bool.and_eq_true, decide_eq_true_iff, decide_eq_true_iff]

theorem drops_clip (c : Clip) : (Filter.clip c.min c.max c.inclusive).drops x = true ↔ ¬c.Contains x := by
  obtain ⟨min, max, inclusive⟩ := c
  have join {R : Decimal.Extended → Decimal.Extended → Prop} :
      ((∃ low v, number? min = some low ∧ number? x = some v ∧ R low v) ∧
        ∃ v high, number? x = some v ∧ number? max = some high ∧ R v high) ↔
      ∃ low v high, number? min = some low ∧ number? x = some v ∧ number? max = some high ∧ R low v ∧
      R v high := by
    constructor
    · rintro ⟨⟨low, v, hmin, hx, hlow⟩, w, high, hw, hmax, hhigh⟩
      obtain rfl : v = w := Option.some.inj (hx.symm.trans hw)
      exact ⟨low, v, high, hmin, hx, hmax, hlow, hhigh⟩
    · rintro ⟨low, v, high, hmin, hx, hmax, hlow, hhigh⟩
      exact ⟨⟨low, v, hmin, hx, hlow⟩, v, high, hx, hmax, hhigh⟩
  cases inclusive with
  | true => simp only [Filter.drops, between_iff, Decimal.le_iff, join, Clip.Contains, if_true, Set.mem_Icc]
  | false =>
    simp only [Filter.drops, between_iff, Decimal.lt_iff, join, Clip.Contains, Bool.false_eq_true, if_false,
      Set.mem_Ioo]

theorem matches_map {α : Type} {o : Option α} {e : α → Filter} {P : α → Float → Prop}
    (h : ∀ a x, (e a).drops x = true ↔ P a x) :
    (∃ g ∈ o.map e, g.matchesMetric m = true) ↔ ∃ x, m.HasScalar x ∧ ∃ a, o = some a ∧ P a x := by
  simp only [Filter.matchesMetric_iff, Option.mem_def, Option.map_eq_some_iff]
  constructor
  · rintro ⟨_, ⟨a, ha, rfl⟩, x, hx, hd⟩
    exact ⟨x, hx, a, ha, (h a x).mp hd⟩
  · rintro ⟨x, hx, a, ha, hd⟩
    exact ⟨e a, ⟨a, ha, rfl⟩, x, hx, (h a x).mpr hd⟩

theorem matches_exclude : (∃ g ∈ f.exclude.map Filter.exclude, g.matchesMetric m = true) ↔
    ∃ x, m.HasScalar x ∧ f.Excludes x :=
  matches_map fun _ _ => drops_exclude

theorem matches_clip :
    (∃ g ∈ f.clip.map fun c => Filter.clip c.min c.max c.inclusive, g.matchesMetric m = true) ↔
    ∃ x, m.HasScalar x ∧ f.Clips x :=
  matches_map fun c _ => drops_clip c

open Classical in
theorem firstMatch_toList {o : Option Filter} {s : String} (h : ∀ g ∈ o, g.name = s) :
    Rule.firstMatch (o.toList.map Filter.rule) m =
      if ∃ g ∈ o, g.matchesMetric m = true then some s else none := by
  cases o with
  | none => simp [Rule.firstMatch]
  | some g =>
    have hs := h g rfl
    by_cases hg : g.matchesMetric m = true <;> simp [Rule.firstMatch, Filter.rule, hg, hs]

open Classical in
theorem firstMatch_chain (f : Filters) (m : Metric) : Filter.firstMatch f.chain m =
    (if ∃ x, m.HasScalar x ∧ f.Excludes x then some "exclude" else none).or
      (if ∃ x, m.HasScalar x ∧ f.Clips x then some "clip" else none) := by
  rw [Filter.firstMatch, chain, List.map_append, Rule.firstMatch_append, firstMatch_toList (s := "exclude"),
    firstMatch_toList (s := "clip")]
  · simp only [matches_exclude, matches_clip]
  · intro g hg
    obtain ⟨c, -, rfl⟩ := Option.map_eq_some_iff.mp hg
    rfl
  · intro g hg
    obtain ⟨listed, -, rfl⟩ := Option.map_eq_some_iff.mp hg
    rfl

theorem one_scalar {y : Float} (hx : m.HasScalar x) (hy : m.HasScalar y) : x = y :=
  Option.some.inj ((Filter.subject?_eq_some.mpr hx).symm.trans (Filter.subject?_eq_some.mpr hy))

theorem shouldDrop_chain (f : Filters) (m : Metric) :
    Filter.shouldDrop f.chain m = true ↔ ∃ x, m.HasScalar x ∧ (f.Excludes x ∨ f.Clips x) := by
  rw [Filter.shouldDrop, Rule.shouldDrop, ← Filter.firstMatch, firstMatch_chain]
  simp only [and_or_left, exists_or]
  split_ifs <;> simp_all

theorem firstMatch_exclude (f : Filters) (m : Metric) :
    Filter.firstMatch f.chain m = some "exclude" ↔ ∃ x, m.HasScalar x ∧ f.Excludes x := by
  rw [firstMatch_chain]
  split_ifs <;> simp_all

theorem firstMatch_clip (f : Filters) (m : Metric) :
    Filter.firstMatch f.chain m = some "clip" ↔ ∃ x, m.HasScalar x ∧ f.Clips x ∧ ¬f.Excludes x := by
  -- A metric has one value only, so that it is the clipped one that is not excluded.
  have split : (∃ x, m.HasScalar x ∧ f.Clips x ∧ ¬f.Excludes x) ↔
      (∃ x, m.HasScalar x ∧ f.Clips x) ∧ ¬∃ x, m.HasScalar x ∧ f.Excludes x := by
    constructor
    · rintro ⟨x, hx, clips, kept⟩
      refine ⟨⟨x, hx, clips⟩, ?_⟩
      rintro ⟨y, hy, excluded⟩
      exact kept (one_scalar hx hy ▸ excluded)
    · rintro ⟨⟨x, hx, clips⟩, kept⟩
      exact ⟨x, hx, clips, fun excluded => kept ⟨x, hx, excluded⟩⟩
  rw [firstMatch_chain, split]
  split_ifs <;> simp_all

end Filters

/-! What is not a number, and the two zeros -/

theorem not_contains (c : Clip) (h : x.isNaN = true) : ¬c.Contains x := by
  rintro ⟨-, v, -, -, hx, -⟩
  exact Decimal.number?_ne_some h hx

theorem not_excludes (f : Filters) (h : x.isNaN = true) : ¬f.Excludes x := by
  rintro ⟨-, -, -, -, v, hx, -⟩
  exact Decimal.number?_ne_some h hx

theorem excludes_zero (f : Filters) : f.Excludes (-0.0) ↔ f.Excludes 0.0 := by
  have same : number? (-0.0) = number? 0.0 := rfl
  rw [Filters.Excludes, Filters.Excludes, same]

/-- A metric is dropped if its one value is excluded or outside the interval, and the exclusion is named first.
In any chain the first rule that matches is named, and neither order nor repetition nor what is added behind
saves a metric. -/
theorem filters_semantics (f : Filters) (m : Metric) :
    (Filter.shouldDrop f.chain m = true ↔ ∃ x, m.HasScalar x ∧ (f.Excludes x ∨ f.Clips x)) ∧
    (Filter.firstMatch f.chain m = some "exclude" ↔ ∃ x, m.HasScalar x ∧ f.Excludes x) ∧
    (Filter.firstMatch f.chain m = some "clip" ↔ ∃ x, m.HasScalar x ∧ f.Clips x ∧ ¬f.Excludes x) ∧
    (∀ x, x.isNaN = true → ¬f.Excludes x ∧ ∀ c : Clip, ¬c.Contains x) ∧
    (f.Excludes (-0.0) ↔ f.Excludes 0.0) ∧
    ∀ c c' : List Rule,
      Rule.firstMatch (c ++ c') m = (Rule.firstMatch c m).or (Rule.firstMatch c' m) ∧
      ((∀ r, r ∈ c ↔ r ∈ c') → Rule.shouldDrop c m = Rule.shouldDrop c' m) ∧
      (Rule.shouldDrop c m = true → Rule.shouldDrop (c ++ c') m = true) := by
  refine ⟨f.shouldDrop_chain m, f.firstMatch_exclude m, f.firstMatch_clip m, fun x h => ?_, excludes_zero f,
    fun c c' => ?_⟩
  · exact ⟨not_excludes f h, fun c => not_contains c h⟩
  · exact ⟨Rule.firstMatch_append c c' m, fun h => Rule.shouldDrop_congr h m,
      fun h => Rule.shouldDrop_append h c'⟩

def zeroless : Filters := ⟨some ⟨0, 10, false⟩, some [0, 0 / 0]⟩

def zeroGauge : Metric := ⟨"g", .ofList [("gauge", -0.0)], .empty, .epoch, .gauge⟩

theorem filters_semantics_zero : (∃ x, zeroGauge.HasScalar x ∧ zeroless.Excludes x) ∧
    Filter.firstMatch zeroless.chain zeroGauge = some "exclude" ∧
    Rule.shouldDrop (zeroless.chain.map Filter.rule ++ []) zeroGauge = true ∧ ¬zeroless.Excludes (0 / 0) := by
  have excluded : ∃ x, zeroGauge.HasScalar x ∧ zeroless.Excludes x :=
    ⟨-0.0, .inr ⟨rfl, by decide +kernel⟩, _, rfl, 0, by simp, Decimal.rational 0, rfl, rfl⟩
  obtain ⟨drops, first, -, nan, -, chains⟩ := filters_semantics zeroless zeroGauge
  obtain ⟨x, hx, hexcl⟩ := excluded
  exact ⟨⟨x, hx, hexcl⟩, first.mpr ⟨x, hx, hexcl⟩, (chains _ []).2.2 (drops.mpr ⟨x, hx, .inl hexcl⟩),
    (nan (0 / 0) (by decide +kernel)).1⟩

end Collector

end ScrapeRelay

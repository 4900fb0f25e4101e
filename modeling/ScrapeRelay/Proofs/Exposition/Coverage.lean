import ScrapeRelay.Proofs.Exposition.Reference

/-!
Which samples of an accepted body have a metric. Each has exactly one, unless its value is no number where
nothing but the value would be told, or it is the sum or the count of a summary or histogram. One more kind of
sample has none: one with the bare name of the histogram that owns it.
-/

namespace ScrapeRelay.Exposition

def Line.sample? : Line → Option Sample
  | .sample s => some s
  | _ => none

def owned (ls : List Line) : List (String × Nat × Sample) := scan ownedAt [] ls

def ownMetric (c : Family.Context) (ls : List Line) (o : String × Nat × Sample) : Option Metric :=
  sampleMetric c o.1 (declared ls o.1) o.2.2

/-- A sample that no metric is meant to come of. -/
inductive Exempt (family : String) (kind : Option Family.Kind) (s : Sample) : Prop
  | number (hk : kind ≠ some .summary ∧ kind ≠ some .histogram) (hn : s.value.isNaN = true)
  | quantile (hk : kind = some .summary) (hs : s.name = family) (hn : s.value.isNaN = true)
  | sum (hk : kind = some .summary ∨ kind = some .histogram) (hs : s.name = family ++ "_sum")
  | count (hk : kind = some .summary ∨ kind = some .histogram) (hs : s.name = family ++ "_count")

/-- A sample with the name of a histogram, and not of one of its series. -/
def Bare (family : String) (kind : Option Family.Kind) (s : Sample) : Prop :=
  kind = some .histogram ∧ s.name = family

variable {c : Family.Context} {before ls : List Line} {l : Line} {name family : String} {kind : Option Family.Kind}
  {s : Sample} {o : String × Nat × Sample}

/-! The samples and their owners -/

theorem scan_owned_samples (before ls : List Line) :
    (scan ownedAt before ls).map (·.2.2) = ls.filterMap Line.sample? := by
  induction ls generalizing before with
  | nil => rfl
  | cons l rest ih =>
    rw [scan, List.map_append, ih]
    cases l <;> rfl

theorem declared_earlier {k : Family.Kind} (h : declared before name = some k) (later : List Line) :
    declared (before ++ later) name = some k := by
  rw [declared, List.findSome?_append]
  change (declared before name).or _ = _
  rw [h, Option.some_or]

theorem ownerAfter_cases (ls : List Line) (name : String) : name = ownerAfter ls name ∨
    ∃ k, declared ls (ownerAfter ls name) = some k ∧
    ∃ suffix ∈ suffixes k, name = ownerAfter ls name ++ suffix := by
  rw [ownerAfter]
  split
  · exact .inl rfl
  · cases hf : (typedNames ls).find? fun base => holdsSeries ls base name with
    | none => exact .inl rfl
    | some base =>
      have hh := List.find?_some (p := fun base => holdsSeries ls base name) hf
      obtain ⟨suffix, hs, hn, ho⟩ := holdsSeries_iff.mp hh
      obtain ⟨k, hk, hm⟩ := (owns_iff hs).mp ho
      exact .inr ⟨k, hk, suffix, hm, hn⟩

theorem owned_name (h : o ∈ owned ls) : o.2.2.name = o.1 ∨
    ∃ k, declared ls o.1 = some k ∧ ∃ suffix ∈ suffixes k, o.2.2.name = o.1 ++ suffix := by
  obtain ⟨earlier, l, later, rfl, ho⟩ := scan_split h
  cases l with
  | silent | kind => simp [ownedAt] at ho
  | sample s =>
    obtain rfl := Option.some.inj ho
    refine (ownerAfter_cases earlier s.name).imp_right ?_
    rintro ⟨k, hk, hs⟩
    exact ⟨k, declared_earlier hk _, hs⟩

theorem owned_mentioned (h : o ∈ owned ls) : o.1 ∈ familyNames ls := by
  rw [mem_familyNames]
  unfold owned at h
  unfold mentions
  generalize ([] : List Line) = before at h
  induction ls generalizing before with
  | nil => simp [scan] at h
  | cons l rest ih =>
    rw [scan, List.mem_append] at h ⊢
    refine h.imp (fun h => ?_) (ih _)
    cases l with
    | silent | kind => simp [ownedAt] at h
    | sample s =>
      obtain rfl : o = _ := by simpa [ownedAt] using h
      simp [mentionAt]

/-! Sorted by their owners -/

theorem flatMap_filter_perm {α : Type} (l : List α) (key : α → String) {names : List String}
    (hn : names.Nodup) :
    (names.flatMap fun name => l.filter fun a => key a = name).Perm (l.filter fun a => key a ∈ names) := by
  induction names with
  | nil => simp
  | cons name rest ih =>
    obtain ⟨hname, hrest⟩ := List.nodup_cons.mp hn
    rw [List.flatMap_cons]
    refine ((ih hrest).append_left _).trans ?_
    have split :=
      List.filter_append_perm (fun a => decide (key a = name)) (l.filter fun a => key a ∈ name :: rest)
    rw [List.filter_filter, List.filter_filter] at split
    have own : l.filter (fun a => decide (key a = name)) =
        l.filter fun a => decide (key a = name) && decide (key a ∈ name :: rest) := by
      refine List.filter_congr fun a _ => ?_
      by_cases h : key a = name <;> simp [h]
    have others : l.filter (fun a => decide (key a ∈ rest)) =
        l.filter fun a => !decide (key a = name) && decide (key a ∈ name :: rest) := by
      refine List.filter_congr fun a _ => ?_
      by_cases h : key a = name
      · simp [h, hname]
      · simp [h]
    rw [own, others]
    exact split

theorem samplesOf_metrics (c : Family.Context) (ls : List Line) (name : String) :
    ((samplesOf ls name).filterMap fun o => sampleMetric c name (declared ls name) o.2) =
      ((owned ls).filter fun o => o.1 = name).filterMap (ownMetric c ls) := by
  rw [samplesOf, List.filterMap_filterMap, List.filterMap_filter]
  congr 1
  funext o
  by_cases h : o.1 = name
  · simp [h, ownMetric]
  · simp [h]

theorem reference_perm (c : Family.Context) (ls : List Line) :
    (reference c ls).Perm ((owned ls).filterMap (ownMetric c ls)) := by
  have all : ((owned ls).filter fun o => o.1 ∈ familyNames ls) = owned ls :=
    List.filter_eq_self.mpr fun o ho => decide_eq_true (owned_mentioned ho)
  have sorted := flatMap_filter_perm (owned ls) (·.1) (familyNames_nodup ls)
  rw [all] at sorted
  have metrics := sorted.filterMap (ownMetric c ls)
  rw [List.filterMap_flatMap] at metrics
  rw [reference]
  simp only [samplesOf_metrics]
  exact metrics

/-! What there is of a metric -/

theorem metricsOf_each {f : Family} {samples : List (Nat × Sample)} {ms : List Metric}
    (h : f.metricsOf c samples = .ok ms) : ∀ o ∈ samples, ∃ m, f.metric c o.2 = .ok m := by
  induction samples generalizing ms with
  | nil => simp
  | cons o rest ih =>
    rw [Family.metricsOf] at h
    cases hm : f.metric c o.2 with
    | error fault => simp [hm] at h
    | ok m =>
      cases hr : f.metricsOf c rest with
      | error e => simp [hm, hr, Except.map] at h
      | ok more => exact List.forall_mem_cons.mpr ⟨⟨m, hm⟩, ih hr⟩

theorem flatten_each {fs : Families} {ms : List Metric} (h : flatten c fs = .ok ms) :
    ∀ f ∈ fs, ∀ o ∈ f.samples, ∃ m, f.metric c o.2 = .ok m := by
  induction fs generalizing ms with
  | nil => simp
  | cons f rest ih =>
    obtain ⟨own, hm, h⟩ := Sample.bind_eq_ok h
    obtain ⟨more, hr, -⟩ := Sample.bind_eq_ok h
    exact List.forall_mem_cons.mpr ⟨metricsOf_each hm, ih hr⟩

theorem owned_metric {ms : List Metric} (h : flatten c (table ls) = .ok ms) (ho : o ∈ owned ls) :
    ∃ m, (familyOf ls o.1).metric c o.2.2 = .ok m := by
  have hf : familyOf ls o.1 ∈ table ls := List.mem_map_of_mem (owned_mentioned ho)
  refine flatten_each h _ hf o.2 ?_
  exact List.mem_filterMap.mpr ⟨o, ho, if_pos rfl⟩

theorem metrics_perm {timestamp : Timestamp} {tags : Dict String String} {body : String} {ms : List Metric}
    (h : read timestamp tags body = .ok ms) (hl : linesOf body = .ok ls) :
    ms.Perm ((owned ls).filterMap (ownMetric ⟨timestamp, tags⟩ ls)) := by
  obtain ⟨ls', hl', hf⟩ := table_of_read h
  obtain rfl := Except.ok.inj (hl.symm.trans hl')
  rw [flatten_table hf (labels_named hl)]
  exact reference_perm _ ls

theorem boundMetric_isSome {b : Family.Bounded} {m : Option Metric} (h : Family.boundedMetric c family b s = .ok m)
    (hs : s.name = b.series) : (boundMetric c family b.label b.tag b.kind s).isSome = true := by
  rw [Family.boundedMetric, if_neg (not_not_intro hs)] at h
  cases hx : Family.bound b family s with
  | error f => simp [hx, Except.map] at h
  | ok x => rw [boundMetric, bound_ok hx, Option.map_some, Option.isSome_some]

theorem valueMetric_isSome (c : Family.Context) (name entry : String) (k : Metric.Kind) (s : Sample) :
    (valueMetric c name entry k s).isSome = !s.value.isNaN := by
  rw [valueMetric]
  split <;> simp_all

theorem append_ne_self {suffix : String} (h : suffix ≠ "") (family : String) : family ++ suffix ≠ family := by
  intro he
  have hn : suffix.toList = [] := by simpa using congrArg String.toList he
  exact h (String.toList_injective hn)

theorem bare_of_named {suffix : String} (h : suffix ≠ "") (hs : s.name = family ++ suffix) : s.name ≠ family :=
  fun he => append_ne_self h family (hs.symm.trans he)

theorem exempt_value (hk : kind ≠ some .summary ∧ kind ≠ some .histogram) :
    Exempt family kind s ↔ s.value.isNaN = true := by
  refine ⟨fun h => ?_, .number hk⟩
  cases h with
  | number _ hn => exact hn
  | quantile h => exact absurd h hk.1
  | sum h | count h => exact absurd h (not_or.mpr hk)

theorem exempt_quantile (hs : s.name = family) : Exempt family (some .summary) s ↔ s.value.isNaN = true := by
  refine ⟨fun h => ?_, .quantile rfl hs⟩
  cases h with
  | number hk => simp at hk
  | quantile _ _ hn => exact hn
  | sum _ h => exact absurd hs (bare_of_named (by decide) h)
  | count _ h => exact absurd hs (bare_of_named (by decide) h)

theorem exempt_series {k : Family.Kind} {suffix : String} (hk : k = .summary ∨ k = .histogram)
    (hm : suffix ∈ suffixes k) (hs : s.name = family ++ suffix) :
    Exempt family (some k) s ↔ suffix ≠ "_bucket" := by
  have hne : suffix ≠ "" := by rintro rfl; cases k <;> simp [suffixes] at hm
  constructor
  · rintro h rfl
    cases h with
    | number h => simp_all
    | quantile _ h => exact bare_of_named hne hs h
    | sum _ h => exact absurd (suffix_unique (by decide) (by decide) (hs.symm.trans h)) (by decide)
    | count _ h => exact absurd (suffix_unique (by decide) (by decide) (hs.symm.trans h)) (by decide)
  · intro h
    have hk : some k = some .summary ∨ some k = some .histogram := by simpa using hk
    have hm := suffixes_subset hm
    simp only [suffixes, List.mem_cons, List.not_mem_nil, or_false] at hm
    rcases hm with rfl | rfl | rfl
    · exact absurd rfl h
    · exact .sum hk hs
    · exact .count hk hs

theorem sampleMetric_isSome {samples : List (Nat × Sample)} {m : Option Metric}
    (hm : Family.metric c ⟨family, kind, samples⟩ s = .ok m)
    (hs : s.name = family ∨ ∃ k, kind = some k ∧ ∃ suffix ∈ suffixes k, s.name = family ++ suffix) :
    (sampleMetric c family kind s).isSome = true ↔ ¬ Exempt family kind s ∧ ¬ Bare family kind s := by
  rcases kind with - | (_ | _ | _ | _ | _)
  case some.summary =>
    have notBare : ¬ Bare family (some .summary) s := by simp [Bare]
    rcases hs with hs | ⟨k, hk, suffix, hsuffix, hs⟩
    · simp only [exempt_quantile hs, sampleMetric]
      cases hn : s.value.isNaN with
      | true => simp
      | false =>
        have told : (boundMetric c family "quantile" "quantile" .summary s).isSome = true :=
          boundMetric_isSome (b := Family.bounded family false) hm hs
        simp [hs, notBare, told]
    · obtain rfl := Option.some.inj hk
      have hne : suffix ≠ "_bucket" := by rintro rfl; simp [suffixes] at hsuffix
      have hb : s.name ≠ family := bare_of_named (by rintro rfl; simp [suffixes] at hsuffix) hs
      simp [sampleMetric, hb, (exempt_series (.inl rfl) hsuffix hs).mpr hne]
  case some.histogram =>
    rcases hs with hs | ⟨k, hk, suffix, hsuffix, hs⟩
    · have hb : family ≠ family ++ "_bucket" := (append_ne_self (by decide) family).symm
      simp [sampleMetric, hs, hb, Bare]
    · obtain rfl := Option.some.inj hk
      have notBare : ¬ Bare family (some .histogram) s := fun h =>
        bare_of_named (by rintro rfl; simp [suffixes] at hsuffix) hs h.2
      rw [exempt_series (.inr rfl) hsuffix hs]
      by_cases hb : suffix = "_bucket"
      · subst hb
        have told : (boundMetric c family "le" "bucket" .histogram s).isSome = true :=
          boundMetric_isSome (b := Family.bounded family true) hm hs
        simp [sampleMetric, hs, notBare, told]
      · have hname : s.name ≠ family ++ "_bucket" := fun h =>
          hb (suffix_unique hsuffix (by decide) (hs.symm.trans h))
        simp [sampleMetric, hname, hb]
  all_goals
    rw [exempt_value (by simp), sampleMetric, valueMetric_isSome]
    simp [Bare]

/-- Every sample line of an accepted body yields one metric, and nothing else does, if it is not one of those
that are meant to be left out and not a bare one of a histogram. -/
theorem samples_covered {timestamp : Timestamp} {tags : Dict String String} {body : String} {ms : List Metric}
    (h : read timestamp tags body = .ok ms) : ∃ ls, linesOf body = .ok ls ∧
      (owned ls).map (·.2.2) = ls.filterMap Line.sample? ∧
      ms.Perm ((owned ls).filterMap (ownMetric ⟨timestamp, tags⟩ ls)) ∧
      ∀ o ∈ owned ls, (ownMetric ⟨timestamp, tags⟩ ls o).isSome = true ↔
        ¬ Exempt o.1 (declared ls o.1) o.2.2 ∧ ¬ Bare o.1 (declared ls o.1) o.2.2 := by
  obtain ⟨ls, hl, hf⟩ := table_of_read h
  refine ⟨ls, hl, scan_owned_samples [] ls, ?_, fun o ho => ?_⟩
  · rw [flatten_table hf (labels_named hl)]
    exact reference_perm _ ls
  · obtain ⟨m, hm⟩ := owned_metric hf ho
    exact sampleMetric_isSome hm (owned_name ho)

def latencies : String :=
  "# TYPE lat summary\nlat\x7bquantile=\"0.5\"\x7d 2\nlat\x7bquantile=\"0.9\"\x7d NaN\nlat_sum 4\nup 1\n"

theorem samples_covered_latencies :
    ∃ ms, read ⟨0, 0⟩ .empty latencies = .ok ms ∧ ms.map (·.name) = ["lat", "up"] ∧
    ∃ ls, linesOf latencies = .ok ls ∧ (ls.filterMap Line.sample?).length = 4 ∧
      ms.Perm ((owned ls).filterMap (ownMetric ⟨⟨0, 0⟩, .empty⟩ ls)) := by
  have names : (read ⟨0, 0⟩ .empty latencies).map (fun ms => ms.map (·.name)) = .ok ["lat", "up"] := by
    decide +kernel
  have samples : (linesOf latencies).map (fun ls => (ls.filterMap Line.sample?).length) = .ok 4 := by
    decide +kernel
  cases h : read ⟨0, 0⟩ .empty latencies with
  | error e => simp [h, Except.map] at names
  | ok ms =>
    rw [h] at names
    obtain ⟨ls, hl, -, hp, -⟩ := samples_covered h
    rw [hl] at samples
    exact ⟨ms, rfl, Except.ok.inj names, ls, hl, Except.ok.inj samples, hp⟩

def misnamed : String := "# TYPE lat histogram\nlat\x7ble=\"0.5\"\x7d 5\n"

theorem misnamed_lost : read ⟨0, 0⟩ .empty misnamed = .ok [] ∧ ∃ ls, linesOf misnamed = .ok ls ∧
    ∃ o ∈ owned ls, ¬ Exempt o.1 (declared ls o.1) o.2.2 := by
  refine ⟨by decide +kernel, [.kind "lat" .histogram, .sample ⟨"lat", [("le", "0.5")], 5⟩],
    by decide +kernel, ("lat", 2, ⟨"lat", [("le", "0.5")], 5⟩), by decide +kernel, fun h => ?_⟩
  have hk : declared [.kind "lat" .histogram, .sample ⟨"lat", [("le", "0.5")], 5⟩] "lat" =
      some .histogram := rfl
  rw [hk] at h
  cases h with
  | number h => simp at h
  | quantile h => simp at h
  | sum _ h | count _ h => exact absurd h (by decide)

end ScrapeRelay.Exposition

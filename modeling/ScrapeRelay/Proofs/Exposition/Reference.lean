import ScrapeRelay.Proofs.Dict
import ScrapeRelay.Proofs.Exposition.Ownership

/-!
What the metrics of an accepted body are, said of its lines: family by family in the order of their first
mention, and inside a family sample by sample, at most one metric for each.
-/

namespace ScrapeRelay.Exposition

def linesOf (body : String) : Except Fault (List Line) := (Text.lines body.toList).mapM Line.read

def overlay (given : Dict String String) (others : List (String × String)) : Dict String String :=
  Dict.ofList (given.toList ++ others)

def valueMetric (c : Family.Context) (name entry : String) (kind : Metric.Kind) (s : Sample) : Option Metric :=
  if s.value.isNaN then none
  else some ⟨name, Dict.ofList [(entry, s.value)], overlay c.tags s.labels, c.timestamp, kind⟩

def boundMetric (c : Family.Context) (name label tag : String) (kind : Metric.Kind) (s : Sample) : Option Metric :=
  ((s.label? label).bind fun raw => number? raw.toList).map fun x =>
    ⟨name, Dict.ofList [(boundText x, s.value)],
      overlay c.tags ((s.labels.filter fun l => l.1 ≠ label) ++ [(tag, boundText x)]), c.timestamp, kind⟩

def sampleMetric (c : Family.Context) (name : String) (kind : Option Family.Kind) (s : Sample) : Option Metric :=
  match kind with
  | some .counter => valueMetric c name "counter" .counter s
  | some .untyped => valueMetric c name "value" .untyped s
  | some .gauge | none => valueMetric c name "gauge" .gauge s
  | some .summary =>
    if s.name = name ∧ !s.value.isNaN then boundMetric c name "quantile" "quantile" .summary s else none
  | some .histogram =>
    if s.name = name ++ "_bucket" then boundMetric c name "le" "bucket" .histogram s else none

def reference (c : Family.Context) (ls : List Line) : List Metric :=
  (familyNames ls).flatMap fun name =>
    (samplesOf ls name).filterMap fun o => sampleMetric c name (declared ls name) o.2

/-! Tags -/

theorem overlay_eq_foldl (given : Dict String String) (others : List (String × String)) :
    overlay given others = others.foldl (fun d l => d.insert l.1 l.2) given := by
  rw [overlay, Dict.ofList, List.foldl_append]
  change List.foldl _ (Dict.ofList given.toList) _ = _
  rw [Dict.ofList_toList]

theorem tagsOf_eq_overlay (given : Dict String String) (bound : String) (s : Sample) :
    Family.tagsOf given bound s = overlay given (s.labels.filter fun l => l.1 ≠ bound) := by
  rw [overlay_eq_foldl, Family.tagsOf, List.foldl_filter]
  congr 1
  funext d l
  by_cases h : l.1 = bound <;> simp [h]

theorem overlay_concat (given : Dict String String) (others : List (String × String)) (tag text : String) :
    (overlay given others).insert tag text = overlay given (others ++ [(tag, text)]) := by
  simp [overlay, Dict.ofList, List.foldl_append]

/-! Labels have names -/

theorem pair_named {s rest : List Char} {p : List Char × List Char} (h : Sample.pair s = .ok (p, rest)) :
    p.1 ≠ [] := by
  rw [Sample.pair] at h
  split at h
  · rename_i hs
    obtain ⟨r₁, -, h⟩ := Sample.bind_eq_ok h
    obtain ⟨r₂, -, h⟩ := Sample.bind_eq_ok h
    obtain ⟨v, -, h⟩ := Sample.bind_eq_ok h
    simp only [pure, Except.pure, Except.ok.injEq, Prod.mk.injEq] at h
    rw [← h.1]
    cases s with
    | nil => simp at hs
    | cons c s =>
      have hc : isLabelStart c = true := by simpa using hs
      simp [isLabelChar, hc]
  · simp at h

theorem labelsTo_named {seen ls : List (List Char × List Char)} {s rest : List Char}
    (h : Sample.labelsTo seen s = .ok (ls, rest)) (hs : ∀ l ∈ seen, l.1 ≠ []) :
    ∀ l ∈ ls, l.1 ≠ [] := by
  have more {seen : List (List Char × List Char)} {p : List Char × List Char} {s rest : List Char}
      (hp : Sample.pair s = .ok (p, rest)) (hs : ∀ l ∈ seen, l.1 ≠ []) :
      ∀ l ∈ seen ++ [p], l.1 ≠ [] := by
    intro l hl
    rcases List.mem_append.mp hl with hl | hl
    · exact hs l hl
    · rw [List.mem_singleton.mp hl]
      exact pair_named hp
  fun_induction Sample.labelsTo seen s generalizing ls rest with
  | case1 =>
    obtain ⟨rfl, -⟩ := Prod.mk.inj (Except.ok.inj h)
    exact hs
  | case5 _ _ _ _ _ hp _ _ _ _ _ ih => exact ih h (more hp hs)
  | case6 _ _ _ _ _ hp =>
    obtain ⟨rfl, -⟩ := Prod.mk.inj (Except.ok.inj h)
    exact more hp hs
  | case2 | case3 | case4 | case7 => simp at h

theorem labelSet_named {s rest : List Char} {ls : List (List Char × List Char)}
    (h : Sample.labelSet s = .ok (ls, rest)) : ∀ l ∈ ls, l.1 ≠ [] := by
  simp only [Sample.labelSet] at h
  split at h
  · obtain ⟨rfl, -⟩ := Prod.mk.inj (Except.ok.inj h)
    simp
  · split at h
    · exact labelsTo_named h (by simp)
    · obtain ⟨rfl, -⟩ := Prod.mk.inj (Except.ok.inj h)
      simp

theorem read_named {text : List Char} {s : Sample} (h : Sample.read text = .ok s) :
    ∀ l ∈ s.labels, l.1 ≠ "" := by
  rw [Sample.read] at h
  split at h
  · obtain ⟨⟨ls, rest⟩, hl, h⟩ := Sample.bind_eq_ok h
    obtain ⟨value, -, h⟩ := Sample.bind_eq_ok h
    obtain rfl := Except.ok.inj h
    intro l hm
    obtain ⟨p, hp, rfl⟩ := List.mem_map.mp hm
    intro he
    exact labelSet_named hl p hp (by simpa using congrArg String.toList he)
  · simp at h

theorem comment_ne_sample {words : List (List Char)} {s : Sample} : Line.comment words ≠ .ok (.sample s) := by
  intro h
  simp only [Line.comment] at h
  split at h
  · simp at h
  · split at h
    · obtain ⟨named, -, h⟩ := Sample.bind_eq_ok h
      split at h
      · simp at h
      · split at h <;> simp at h
    · split at h
      · obtain ⟨named, -, h⟩ := Sample.bind_eq_ok h
        simp at h
      · simp at h

theorem read_of_line {text : List Char} {s : Sample} (h : Line.read text = .ok (.sample s)) :
    Sample.read (Text.trim text) = .ok s := by
  rw [Line.read] at h
  split at h
  · simp at h
  · exact absurd h comment_ne_sample
  · cases hr : Sample.read (Text.trim text) with
    | error f => simp [hr, Except.map] at h
    | ok t =>
      simp only [hr, Except.map, Except.ok.injEq, Line.sample.injEq] at h
      rw [h]

theorem line_named {text : List Char} {s : Sample} (h : Line.read text = .ok (.sample s)) :
    ∀ l ∈ s.labels, l.1 ≠ "" := read_named (read_of_line h)

/-! One metric for a sample -/

theorem scalarMetric_eq {c : Family.Context} {name : String} {kind : Metric.Kind} {entry : String} {s : Sample}
    (he : kind.entry? = some entry) (hs : ∀ l ∈ s.labels, l.1 ≠ "") :
    Family.scalarMetric c name kind s = valueMetric c name entry kind s := by
  have hf : s.labels.filter (fun l => l.1 ≠ "") = s.labels :=
    List.filter_eq_self.mpr fun l hl => decide_eq_true (hs l hl)
  rw [Family.scalarMetric, valueMetric, tagsOf_eq_overlay, hf, he]
  rfl

theorem bound_ok {b : Family.Bounded} {name : String} {s : Sample} {x : Float}
    (h : Family.bound b name s = .ok x) : ((s.label? b.label).bind fun raw => number? raw.toList) = some x := by
  rw [Family.bound] at h
  split at h
  · simp at h
  · rename_i raw hr
    rw [hr, Option.bind_some]
    split at h
    · simp at h
    · rename_i y hy
      rw [hy, Except.ok.inj h]

theorem boundedMetric_ok {c : Family.Context} {name : String} {b : Family.Bounded} {s : Sample} {m : Option Metric}
    (h : Family.boundedMetric c name b s = .ok m) :
    m = if s.name = b.series ∧ !(b.skipsNaN && s.value.isNaN) then boundMetric c name b.label b.tag b.kind s
      else none := by
  rw [Family.boundedMetric] at h
  split at h
  · rename_i hs
    rw [if_neg fun hh => hs hh.1, Except.ok.inj h]
  · rename_i hs
    cases hx : Family.bound b name s with
    | error f => simp [hx, Except.map] at h
    | ok x =>
      simp only [hx, Except.map, Except.ok.injEq] at h
      rw [← h, boundMetric, bound_ok hx, Option.map_some, tagsOf_eq_overlay, overlay_concat]
      cases hn : b.skipsNaN && s.value.isNaN <;> simp_all

theorem metric_ok {c : Family.Context} {f : Family} {s : Sample} {m : Option Metric} (h : f.metric c s = .ok m)
    (hs : ∀ l ∈ s.labels, l.1 ≠ "") : m = sampleMetric c f.name f.kind s := by
  rw [Family.metric] at h
  split at h
  · rename_i kind hk
    rw [← Except.ok.inj h]
    cases hf : f.kind with
    | none =>
      simp only [hf, Family.scalar?, Option.some.injEq] at hk
      exact hk ▸ scalarMetric_eq rfl hs
    | some k =>
      cases k <;> simp only [hf, Family.scalar?, Option.some.injEq, reduceCtorEq] at hk
      all_goals exact hk ▸ scalarMetric_eq rfl hs
  · rename_i hk
    rw [boundedMetric_ok h]
    cases hf : f.kind with
    | none => simp [hf, Family.scalar?] at hk
    | some k =>
      cases k <;> simp only [hf, Family.scalar?, reduceCtorEq] at hk
      all_goals simp [sampleMetric, Family.bounded]

/-! All metrics -/

theorem metricsOf_ok {c : Family.Context} {f : Family} {samples : List (Nat × Sample)} {ms : List Metric}
    (h : f.metricsOf c samples = .ok ms) (hs : ∀ o ∈ samples, ∀ l ∈ o.2.labels, l.1 ≠ "") :
    ms = samples.filterMap fun o => sampleMetric c f.name f.kind o.2 := by
  induction samples generalizing ms with
  | nil => exact (Except.ok.inj h).symm
  | cons o rest ih =>
    rw [Family.metricsOf] at h
    cases hm : f.metric c o.2 with
    | error fault => simp [hm] at h
    | ok m =>
      cases hr : f.metricsOf c rest with
      | error e => simp [hm, hr, Except.map] at h
      | ok more =>
        simp only [hm, hr, Except.map, Except.ok.injEq] at h
        rw [← h, ih hr fun o ho => hs o (List.mem_cons_of_mem _ ho), metric_ok hm (hs o List.mem_cons_self)]
        cases hc : sampleMetric c f.name f.kind o.2 <;> simp [hc]

theorem flatten_ok {c : Family.Context} {fs : Families} {ms : List Metric} (h : flatten c fs = .ok ms)
    (hs : ∀ f ∈ fs, ∀ o ∈ f.samples, ∀ l ∈ o.2.labels, l.1 ≠ "") :
    ms = fs.flatMap fun f => f.samples.filterMap fun o => sampleMetric c f.name f.kind o.2 := by
  induction fs generalizing ms with
  | nil => exact (Except.ok.inj h).symm
  | cons f rest ih =>
    rw [flatten] at h
    cases hm : f.metrics c with
    | error e => simp [hm, bind, Except.bind] at h
    | ok own =>
      cases hr : flatten c rest with
      | error e => simp [hm, hr, bind, Except.bind] at h
      | ok more =>
        simp only [hm, hr, bind, Except.bind, pure, Except.pure, Except.ok.injEq] at h
        rw [← h, ih hr fun f hf => hs f (List.mem_cons_of_mem _ hf), metricsOf_ok hm (hs f List.mem_cons_self),
          List.flatMap_cons]

theorem scan_split {α : Type} {f : List Line → Line → Option α} {before ls : List Line} {a : α}
    (h : a ∈ scan f before ls) :
    ∃ earlier l later, ls = earlier ++ l :: later ∧ f (before ++ earlier) l = some a := by
  induction ls generalizing before with
  | nil => simp [scan] at h
  | cons l rest ih =>
    rcases List.mem_append.mp h with h | h
    · exact ⟨[], l, rest, rfl, by simpa using h⟩
    · obtain ⟨earlier, l', later, rfl, ha⟩ := ih h
      exact ⟨l :: earlier, l', later, rfl, by simpa using ha⟩

theorem mem_samplesOf {ls : List Line} {name : String} {o : Nat × Sample} (h : o ∈ samplesOf ls name) :
    .sample o.2 ∈ ls := by
  obtain ⟨owned, hm, ho⟩ := List.mem_filterMap.mp h
  obtain ⟨earlier, l, later, rfl, ha⟩ := scan_split hm
  cases l with
  | silent => simp [ownedAt] at ha
  | kind f k => simp [ownedAt] at ha
  | sample s =>
    obtain rfl := Option.some.inj ha
    split at ho
    · obtain rfl := Option.some.inj ho
      exact List.mem_append_right _ List.mem_cons_self
    · simp at ho

theorem mem_mapM {texts : List (List Char)} {ls : List Line} {l : Line} (h : texts.mapM Line.read = .ok ls)
    (hl : l ∈ ls) : ∃ t ∈ texts, Line.read t = .ok l := by
  induction texts generalizing ls with
  | nil =>
    obtain rfl := Except.ok.inj h
    simp at hl
  | cons t rest ih =>
    rw [List.mapM_cons] at h
    obtain ⟨a, ha, h⟩ := Sample.bind_eq_ok h
    obtain ⟨more, hm, h⟩ := Sample.bind_eq_ok h
    obtain rfl := Except.ok.inj h
    rcases List.mem_cons.mp hl with rfl | hl
    · exact ⟨t, List.mem_cons_self, ha⟩
    · obtain ⟨u, hu, hr⟩ := ih hm hl
      exact ⟨u, List.mem_cons_of_mem _ hu, hr⟩

theorem flatten_table {c : Family.Context} {ls : List Line} {ms : List Metric} (h : flatten c (table ls) = .ok ms)
    (hs : ∀ s, .sample s ∈ ls → ∀ l ∈ s.labels, l.1 ≠ "") : ms = reference c ls := by
  rw [flatten_ok h, reference, table, List.flatMap_map]
  · rfl
  · intro f hf o ho
    obtain ⟨name, -, rfl⟩ := List.mem_map.mp hf
    exact hs o.2 (mem_samplesOf ho)

theorem table_of_read {timestamp : Timestamp} {tags : Dict String String} {body : String} {ms : List Metric}
    (h : read timestamp tags body = .ok ms) :
    ∃ ls, linesOf body = .ok ls ∧ flatten ⟨timestamp, tags⟩ (table ls) = .ok ms := by
  unfold read families at h
  cases hf : Families.read [] 1 (Text.lines body.toList) with
  | error e => simp [hf, bind, Except.bind] at h
  | ok fs =>
    rw [hf] at h
    have hf : (table []).read (([] : List Line).length + 1) (Text.lines body.toList) = .ok fs := hf
    obtain ⟨ls, hl, rfl⟩ := read_table hf
    exact ⟨ls, hl, h⟩

theorem labels_named {body : String} {ls : List Line} (h : linesOf body = .ok ls) :
    ∀ s, .sample s ∈ ls → ∀ l ∈ s.labels, l.1 ≠ "" := by
  intro s hs
  obtain ⟨t, -, hr⟩ := mem_mapM h hs
  exact line_named hr

/-- The metrics of an accepted body are those that its lines ask for. -/
theorem read_eq_reference {timestamp : Timestamp} {tags : Dict String String} {body : String} {ms : List Metric}
    (h : read timestamp tags body = .ok ms) :
    ∃ ls, linesOf body = .ok ls ∧ ms = reference ⟨timestamp, tags⟩ ls := by
  obtain ⟨ls, hl, hf⟩ := table_of_read h
  exact ⟨ls, hl, flatten_table hf (labels_named hl)⟩

def handover : String :=
  "lat_bucket\x7ble=\"1\"\x7d 2\n# TYPE lat histogram\nlat_bucket\x7ble=\"1\"\x7d 3\nlat_sum 4\n"

theorem read_handover :
    ∃ ms, read ⟨0, 0⟩ .empty handover = .ok ms ∧ ms.map (·.name) = ["lat_bucket", "lat"] ∧
    ∃ ls, linesOf handover = .ok ls ∧ ms = reference ⟨⟨0, 0⟩, .empty⟩ ls := by
  have names : (read ⟨0, 0⟩ .empty handover).map (fun ms => ms.map (·.name)) = .ok ["lat_bucket", "lat"] := by
    decide +kernel
  cases h : read ⟨0, 0⟩ .empty handover with
  | error e => simp [h, Except.map] at names
  | ok ms =>
    rw [h] at names
    exact ⟨ms, rfl, Except.ok.inj names, read_eq_reference h⟩

end ScrapeRelay.Exposition

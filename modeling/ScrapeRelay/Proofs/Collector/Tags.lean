import Mathlib.Data.List.Forall2
import Mathlib.Data.List.Nodup
import ScrapeRelay.Collector.Pipeline
import ScrapeRelay.Proofs.Exposition.Grammar
import ScrapeRelay.Proofs.Exposition.Reference

/-!
Where the tags of a scraped metric come from. For each key the first source that has one decides: the bound,
the label of the sample, the annotation, the label of the object, its metadata. The tags that a page is read
with come back on its metrics and decide nothing else.
-/

namespace ScrapeRelay

namespace Target

variable {source : Dict String String} {names : List String} {key : String}

def selected (source : Dict String String) (names : List String) (key : String) : Option String :=
  if key ∈ names then source.get? key else none

def field? (o : Cluster.Reference) : String → Option String
  | "kind" => some o.kind
  | "namespace" => some o.namespace
  | "name" => some o.name
  | "resource_version" => some o.version
  | _ => none

def tag? (t : Target) (s : Selection) (key : String) : Option String :=
  (selected t.annotations (t.includeAnnotations ++ s.annotations) key).or
    ((selected t.labels (t.includeLabels ++ s.labels) key).or
      (if t.includeMetadata ∨ s.metadata then (field? t.reference key).filter (· ≠ "") else none))

theorem get?_pick (source : Dict String String) (names : List String) (tags : Dict String String) (key : String) :
    (pick source names tags).get? key = (selected source names key).or (tags.get? key) := by
  induction names generalizing tags with
  | nil => rfl
  | cons name rest ih =>
    rw [pick, List.foldl_cons]
    change (pick source rest _).get? key = _
    rw [ih]
    unfold selected
    by_cases hk : key = name
    · subst hk
      cases hv : source.get? key with
      | none => simp
      | some v => by_cases hm : key ∈ rest <;> simp [hm]
    · cases hv : source.get? name <;> simp [hk]

theorem get?_metadataTags (o : Cluster.Reference) (key : String) :
    (metadataTags o).get? key = (field? o key).filter (· ≠ "") := by
  have names (p : String × String → Bool) :
      (([("kind", o.kind), ("namespace", o.namespace), ("name", o.name),
        ("resource_version", o.version)].filter p).map (·.1)).Nodup :=
    (List.filter_sublist.map _).nodup (by simp)
  rw [metadataTags, Dict.get?_ofList (names _), List.find?_filter]
  unfold field?
  split
  · by_cases h : o.kind = "" <;> simp [h, Option.filter_some]
  · by_cases h : o.namespace = "" <;> simp [h, Option.filter_some]
  · by_cases h : o.name = "" <;> simp [h, Option.filter_some]
  · by_cases h : o.version = "" <;> simp [h, Option.filter_some]
  · rename_i h₁ h₂ h₃ h₄
    simp [Ne.symm h₁, Ne.symm h₂, Ne.symm h₃, Ne.symm h₄]

theorem get?_tags (t : Target) (s : Selection) (key : String) : (t.tags s).get? key = t.tag? s key := by
  rw [tags, get?_pick, get?_pick, tag?]
  congr 2
  by_cases h : t.includeMetadata ∨ s.metadata
  · rw [if_pos h, if_pos (by simpa using h), get?_metadataTags]
  · rw [if_neg h, if_neg (by simpa using h), Dict.get?_empty]

end Target

def Metric.untagged (m : Metric) : Metric := { m with tags := .empty }

namespace Exposition

/-! One sample -/

def boundNames : Metric.Kind → Option (String × String)
  | .summary => some ("quantile", "quantile")
  | .histogram => some ("le", "bucket")
  | _ => none

def boundTag (k : Metric.Kind) (s : Sample) (key : String) : Option String :=
  (boundNames k).bind fun n =>
    if key = n.2 then ((s.label? n.1).bind fun raw => number? raw.toList).map boundText else none

/-- The label of a sample for this key, unless it is the one that holds the bound. -/
def labelTag (k : Metric.Kind) (s : Sample) (key : String) : Option String :=
  if (boundNames k).map (·.1) = some key then none else s.label? key

def measured (timestamp : Timestamp) (ls : List Line) : List (Sample × Metric) :=
  (familyNames ls).flatMap fun name =>
    (samplesOf ls name).filterMap fun o =>
      (sampleMetric ⟨timestamp, .empty⟩ name (declared ls name) o.2).map fun m => (o.2, m)

theorem get?_overlay {given : Dict String String} {others : List (String × String)}
    (h : (others.map (·.1)).Nodup) (key : String) :
    (overlay given others).get? key = ((others.find? fun l => l.1 = key).map (·.2)).or (given.get? key) := by
  rw [overlay_eq_foldl, Dict.get?_foldl_insert h]

theorem WrittenSample.distinct {w : List Char} {s : Sample} (h : WrittenSample w s) :
    (s.labels.map (·.1)).Nodup := by
  cases h with
  | bare => exact List.nodup_nil
  | @labelled name gap w gap' value labels x hn hg hw hd =>
    have names : ((Sample.ofChars name labels x).labels.map (·.1)) = (labels.map (·.1)).map String.ofList := by
      simp [Sample.ofChars, Function.comp_def]
    rw [names]
    exact List.Nodup.map (fun _ _ => String.ofList_injective) hd

variable {c : Family.Context} {name : String} {s : Sample} {m : Metric}

theorem valueMetric_tags {entry : String} {k : Metric.Kind} (hd : (s.labels.map (·.1)).Nodup)
    (h : valueMetric c name entry k s = some m) (key : String) :
    m.kind = k ∧ m.tags.get? key = (s.label? key).or (c.tags.get? key) := by
  rw [valueMetric] at h
  split at h
  · cases h
  · obtain rfl := Option.some.inj h
    exact ⟨rfl, get?_overlay hd key⟩

theorem label?_without (s : Sample) (label key : String) :
    ((s.labels.filter fun l => l.1 ≠ label).find? fun l => l.1 = key).map (·.2) =
      if label = key then none else s.label? key := by
  rw [List.find?_filter, Sample.label?]
  split
  · rename_i hl
    rw [List.find?_eq_none.mpr fun l _ h => ?_]
    · rfl
    · simp [hl] at h
  · rename_i hl
    congr 2
    funext l
    by_cases hk : l.1 = key
    · simp [hk, Ne.symm hl]
    · simp [hk]

theorem boundMetric_tags {label tag : String} {k : Metric.Kind} (hd : (s.labels.map (·.1)).Nodup)
    (h : boundMetric c name label tag k s = some m) (key : String) :
    m.kind = k ∧ m.tags.get? key =
      (if key = tag then ((s.label? label).bind fun raw => number? raw.toList).map boundText else none).or
        ((if label = key then none else s.label? key).or (c.tags.get? key)) := by
  obtain ⟨x, hx, rfl⟩ := Option.map_eq_some_iff.mp h
  refine ⟨rfl, ?_⟩
  have hf : ((s.labels.filter fun l => l.1 ≠ label).map (·.1)).Nodup := (List.filter_sublist.map _).nodup hd
  rw [← overlay_concat, Dict.get?_insert, get?_overlay hf, label?_without, hx]
  by_cases hk : key = tag <;> simp [hk]

theorem sampleMetric_tags {kind : Option Family.Kind} (hd : (s.labels.map (·.1)).Nodup)
    (h : sampleMetric c name kind s = some m) (key : String) :
    m.tags.get? key = (boundTag m.kind s key).or ((labelTag m.kind s key).or (c.tags.get? key)) := by
  unfold sampleMetric at h
  split at h
  · obtain ⟨hk, ht⟩ := valueMetric_tags hd h key
    rw [hk, ht]
    rfl
  · obtain ⟨hk, ht⟩ := valueMetric_tags hd h key
    rw [hk, ht]
    rfl
  · obtain ⟨hk, ht⟩ := valueMetric_tags hd h key
    rw [hk, ht]
    rfl
  · obtain ⟨hk, ht⟩ := valueMetric_tags hd h key
    rw [hk, ht]
    rfl
  · split at h
    · obtain ⟨hk, ht⟩ := boundMetric_tags hd h key
      rw [hk, ht]
      simp [boundTag, labelTag, boundNames]
    · cases h
  · split at h
    · obtain ⟨hk, ht⟩ := boundMetric_tags hd h key
      rw [hk, ht]
      simp [boundTag, labelTag, boundNames]
    · cases h

/-! Given tags decide nothing else -/

def Family.Context.bare (c : Family.Context) : Family.Context := ⟨c.timestamp, .empty⟩

theorem sampleMetric_untagged (c : Family.Context) (name : String) (kind : Option Family.Kind) (s : Sample) :
    (sampleMetric c name kind s).map Metric.untagged = (sampleMetric c.bare name kind s).map Metric.untagged := by
  have value (entry : String) (k : Metric.Kind) :
      (valueMetric c name entry k s).map Metric.untagged =
        (valueMetric c.bare name entry k s).map Metric.untagged := by
    unfold valueMetric
    split <;> rfl
  have bound (label tag : String) (k : Metric.Kind) :
      (boundMetric c name label tag k s).map Metric.untagged =
        (boundMetric c.bare name label tag k s).map Metric.untagged := by
    simp only [boundMetric, Option.map_map]
    rfl
  unfold sampleMetric
  split
  · exact value _ _
  · exact value _ _
  · exact value _ _
  · exact value _ _
  · split
    · exact bound _ _ _
    · rfl
  · split
    · exact bound _ _ _
    · rfl

theorem metric_untagged (c : Family.Context) (f : Family) (s : Sample) :
    (f.metric c s).map (Option.map Metric.untagged) = (f.metric c.bare s).map (Option.map Metric.untagged) := by
  unfold Family.metric
  split
  · rename_i kind hk
    simp only [Except.map, Family.scalarMetric]
    split <;> rfl
  · simp only [Family.boundedMetric]
    split
    · rfl
    · cases Family.bound (Family.bounded f.name (f.kind = some .histogram)) f.name s with
      | error fault => rfl
      | ok x =>
        simp only [Except.map]
        split <;> rfl

def joined {ε : Type} (own rest : Except ε (List Metric)) : Except ε (List Metric) :=
  own >>= fun ms => rest.map (ms ++ ·)

theorem joined_untagged {ε : Type} {own own' rest rest' : Except ε (List Metric)}
    (ho : own.map (List.map Metric.untagged) = own'.map (List.map Metric.untagged))
    (hr : rest.map (List.map Metric.untagged) = rest'.map (List.map Metric.untagged)) :
    (joined own rest).map (List.map Metric.untagged) = (joined own' rest').map (List.map Metric.untagged) := by
  have commutes (own rest : Except ε (List Metric)) :
      (joined own rest).map (List.map Metric.untagged) =
        joined (own.map (List.map Metric.untagged)) (rest.map (List.map Metric.untagged)) := by
    cases own with
    | error e => rfl
    | ok ms =>
      cases rest with
      | error e => rfl
      | ok more => exact congrArg Except.ok List.map_append
  rw [commutes, commutes, ho, hr]

theorem metricsOf_cons (c : Family.Context) (f : Family) (o : Nat × Sample) (rest : List (Nat × Sample)) :
    f.metricsOf c (o :: rest) =
      joined (((f.metric c o.2).mapError fun fault => ⟨o.1, fault⟩).map Option.toList)
        (f.metricsOf c rest) := by
  rw [Family.metricsOf]
  cases f.metric c o.2 <;> rfl

theorem flatten_cons (c : Family.Context) (f : Family) (rest : Families) :
    flatten c (f :: rest) = joined (f.metricsOf c f.samples) (flatten c rest) := by
  rw [flatten, Family.metrics]
  cases f.metricsOf c f.samples with
  | error e => rfl
  | ok own => cases flatten c rest <;> rfl

theorem metricsOf_untagged (c : Family.Context) (f : Family) (samples : List (Nat × Sample)) :
    (f.metricsOf c samples).map (List.map Metric.untagged) =
      (f.metricsOf c.bare samples).map (List.map Metric.untagged) := by
  induction samples with
  | nil => rfl
  | cons o rest ih =>
    have commutes (m : Except Fault (Option Metric)) :
        ((m.mapError fun fault => Error.mk o.1 fault).map Option.toList).map (List.map Metric.untagged) =
          ((m.map (Option.map Metric.untagged)).mapError fun fault => Error.mk o.1 fault).map Option.toList := by
      cases m with
      | error fault => rfl
      | ok m => exact congrArg Except.ok (Option.toList_map ..).symm
    rw [metricsOf_cons, metricsOf_cons]
    apply joined_untagged _ ih
    rw [commutes, commutes, metric_untagged]

theorem flatten_untagged (c : Family.Context) (fs : Families) :
    (flatten c fs).map (List.map Metric.untagged) = (flatten c.bare fs).map (List.map Metric.untagged) := by
  induction fs with
  | nil => rfl
  | cons f rest ih =>
    rw [flatten_cons, flatten_cons]
    exact joined_untagged (metricsOf_untagged c f f.samples) ih

theorem read_untagged (timestamp : Timestamp) (tags : Dict String String) (body : String) :
    (read timestamp tags body).map (List.map Metric.untagged) =
      (read timestamp .empty body).map (List.map Metric.untagged) := by
  unfold read
  cases families body with
  | error e => rfl
  | ok fs => exact flatten_untagged ⟨timestamp, tags⟩ fs

/-! All metrics of a page -/

theorem distinct_of_linesOf {body : String} {ls : List Line} (h : linesOf body = .ok ls) {s : Sample}
    (hs : .sample s ∈ ls) : (s.labels.map (·.1)).Nodup := by
  obtain ⟨text, -, ht⟩ := mem_mapM h hs
  obtain ⟨w, g, hw, -, -⟩ := written_of_read (read_of_line ht)
  exact hw.distinct

def Tagged (tags : Dict String String) (m : Metric) (o : Sample × Metric) : Prop :=
  m.untagged = o.2.untagged ∧
    ∀ key, m.tags.get? key = (boundTag m.kind o.1 key).or ((labelTag m.kind o.1 key).or (tags.get? key))

theorem sampleMetric_tagged {tags : Dict String String} {timestamp : Timestamp} {kind : Option Family.Kind}
    (hd : (s.labels.map (·.1)).Nodup) :
    Option.Rel (Tagged tags) (sampleMetric ⟨timestamp, tags⟩ name kind s)
      ((sampleMetric ⟨timestamp, .empty⟩ name kind s).map fun m => (s, m)) := by
  have hu := sampleMetric_untagged ⟨timestamp, tags⟩ name kind s
  change _ = (sampleMetric ⟨timestamp, .empty⟩ name kind s).map _ at hu
  cases hm : sampleMetric ⟨timestamp, tags⟩ name kind s with
  | none =>
    cases hb : sampleMetric ⟨timestamp, .empty⟩ name kind s with
    | none => exact .none
    | some b => simp [hm, hb] at hu
  | some m =>
    cases hb : sampleMetric ⟨timestamp, .empty⟩ name kind s with
    | none => simp [hm, hb] at hu
    | some b =>
      rw [hm, hb] at hu
      exact .some ⟨Option.some.inj hu, sampleMetric_tags hd hm⟩

theorem reference_tagged {tags : Dict String String} {timestamp : Timestamp} {ls : List Line}
    (hd : ∀ s, .sample s ∈ ls → (s.labels.map (·.1)).Nodup) :
    List.Forall₂ (Tagged tags) (reference ⟨timestamp, tags⟩ ls) (measured timestamp ls) := by
  apply List.rel_flatMap (List.forall₂_same.mpr fun name _ => Eq.refl name)
  rintro name _ rfl
  refine List.rel_filterMap (R := fun o o' => o = o' ∧ o ∈ samplesOf ls name) ?_
    (List.forall₂_same.mpr fun o ho => ⟨rfl, ho⟩)
  rintro o _ ⟨rfl, ho⟩
  exact sampleMetric_tagged (hd o.2 (mem_samplesOf ho))

end Exposition

namespace Collector.Pipeline

open Exposition (Sample Tagged boundTag labelTag linesOf measured reference_tagged)

def tagOf (t : Target) (selection : Target.Selection) (k : Metric.Kind) (s : Sample) (key : String) :
    Option String :=
  (boundTag k s key).or ((labelTag k s key).or (t.tag? selection key))

theorem scrape_eq (p : Pipeline) {n : Network} {t : Target} {body : String} (now : Timestamp)
    (h : n.fetch t.url = .ok body) :
    p.scrape n now t =
      (Exposition.read now (t.tags p.selection) body).mapError fun e => Failure.parse e.line e.fault.text := by
  rw [scrape, h]
  simp only [bind, Except.bind]
  cases Exposition.read now (t.tags p.selection) body <;> rfl

/-- A page makes the same metrics, or fails in the same way, whatever tags it is read with, and on each metric
every key has the tag of its first source. -/
theorem scrape_tags (spec : Spec) {n : Network} {t : Target} {body : String} (now : Timestamp)
    (h : n.fetch t.url = .ok body) :
    (∀ ms, (ofSpec spec).scrape n now t = .ok ms → ∃ ls, linesOf body = .ok ls ∧
      List.Forall₂ (fun m o => m.untagged = o.2.untagged ∧
        ∀ key, m.tags.get? key = tagOf t spec.selection m.kind o.1 key) ms (measured now ls)) ∧
    ((ofSpec spec).scrape n now t).map (List.map Metric.untagged) =
      ((Exposition.read now .empty body).map (List.map Metric.untagged)).mapError
        (fun e => .parse e.line e.fault.text) ∧
    ∀ tags, (Exposition.read now tags body).map (List.map Metric.untagged) =
      (Exposition.read now .empty body).map (List.map Metric.untagged) := by
  refine ⟨fun ms hs => ?_, ?_, fun tags => Exposition.read_untagged now tags body⟩
  · rw [scrape_eq _ now h] at hs
    cases hr : Exposition.read now (t.tags (ofSpec spec).selection) body with
    | error e => simp [hr, Except.mapError] at hs
    | ok accepted =>
      rw [hr] at hs
      obtain rfl := Except.ok.inj hs
      obtain ⟨ls, hl, hf⟩ := Exposition.table_of_read hr
      obtain rfl := Exposition.flatten_table hf (Exposition.labels_named hl)
      refine ⟨ls, hl, (reference_tagged fun s => Exposition.distinct_of_linesOf hl).imp ?_⟩
      rintro m o ⟨hu, ht⟩
      refine ⟨hu, fun key => ?_⟩
      rw [ht key, Target.get?_tags]
      rfl
  · rw [scrape_eq _ now h, ← Exposition.read_untagged now (t.tags (ofSpec spec).selection) body]
    cases Exposition.read now (t.tags (ofSpec spec).selection) body <;> rfl

def mixedPage : String :=
  "# TYPE lat summary\nlat\x7bquantile=\"0.50\",name=\"own\"\x7d 1\n" ++
    "# TYPE size histogram\nsize_bucket\x7ble=\"1\",bucket=\"b\"\x7d 2\nup\x7bkind=\"\"\x7d 3\n"

def labelledTarget : Target :=
  { ip := "10.0.0.1", scheme := "http", port := "9090", path := "/metrics", scrape := true, includeMetadata := true
    includeLabels := ["name", "tier"], includeAnnotations := ["quantile"]
    reference := ⟨"Pod", "web", "shop", ""⟩
    labels := .ofList [("name", "label"), ("tier", "front"), ("le", "low")]
    annotations := .ofList [("quantile", "noted"), ("tier", "noted"), ("team", "a")] }

def tierSpec : Spec := { Spec.standard with selection := ⟨false, ["le"], ["tier"]⟩ }

def mixedNetwork : Network := fun url =>
  if url = "http://10.0.0.1:9090/metrics" then some ⟨200, mixedPage.toUTF8.toList, true⟩ else none

/-- Annotations win over labels and labels over metadata, what the sample says wins over all three, and the label
that holds the bound gives way to the tags of its name. -/
def mixedTags : List (List (String × String)) :=
  [[("kind", "Pod"), ("le", "low"), ("name", "own"), ("namespace", "web"), ("quantile", "0.5"), ("tier", "noted")],
    [("bucket", "1"), ("kind", "Pod"), ("le", "low"), ("name", "label"), ("namespace", "web"),
      ("quantile", "noted"), ("tier", "noted")],
    [("kind", ""), ("le", "low"), ("name", "label"), ("namespace", "web"), ("quantile", "noted"),
      ("tier", "noted")]]

theorem scrape_tags_mixed :
    mixedNetwork.fetch labelledTarget.url = .ok mixedPage ∧
    ∃ ms, (ofSpec tierSpec).scrape mixedNetwork ⟨0, 0⟩ labelledTarget = .ok ms ∧
      ms.map (fun m => m.tags.toList) = mixedTags ∧
      ∃ ls, linesOf mixedPage = .ok ls ∧
        List.Forall₂ (fun m o => m.untagged = o.2.untagged ∧
          ∀ key, m.tags.get? key = tagOf labelledTarget tierSpec.selection m.kind o.1 key) ms
          (measured ⟨0, 0⟩ ls) := by
  have fetched : mixedNetwork.fetch labelledTarget.url = .ok mixedPage := by decide +kernel
  have tags : ((ofSpec tierSpec).scrape mixedNetwork ⟨0, 0⟩ labelledTarget).map
      (List.map fun m => m.tags.toList) = .ok mixedTags := by
    rw [scrape_eq _ _ fetched]
    decide +kernel
  cases hs : (ofSpec tierSpec).scrape mixedNetwork ⟨0, 0⟩ labelledTarget with
  | error e => simp [hs, Except.map] at tags
  | ok ms =>
    rw [hs] at tags
    exact ⟨fetched, ms, rfl, Except.ok.inj tags, (scrape_tags tierSpec ⟨0, 0⟩ fetched).1 ms hs⟩

end Collector.Pipeline

end ScrapeRelay

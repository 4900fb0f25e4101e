import ScrapeRelay.Proofs.Collector.Tags
import ScrapeRelay.Proofs.Exposition.Coverage

/-!
The labels of a sample on its metric. All of them but the one with the bound are tags of the metric, so samples
with other labels have metrics apart. The tag with the bound of a bucket takes the place of a label that has its
name.
-/

namespace ScrapeRelay.Exposition

def IsBound (k : Metric.Kind) (name : String) : Prop :=
  k = .summary ∧ name = "quantile" ∨ k = .histogram ∧ name = "le"

def IsDisplaced (k : Metric.Kind) (name : String) : Prop := k = .histogram ∧ name = "bucket"

def metricKind : Option Family.Kind → Metric.Kind
  | some .counter => .counter
  | some .untyped => .untyped
  | some .gauge | none => .gauge
  | some .summary => .summary
  | some .histogram => .histogram

variable {c : Family.Context} {family key : String} {kind : Option Family.Kind} {k : Metric.Kind} {s : Sample}
  {m : Metric} {ls : List Line} {o : String × Nat × Sample}

theorem sampleMetric_family (h : sampleMetric c family kind s = some m) :
    m.name = family ∧ m.kind = metricKind kind := by
  have value {entry : String} {k : Metric.Kind} (h : valueMetric c family entry k s = some m) :
      m.name = family ∧ m.kind = k := by
    rw [valueMetric] at h
    split at h
    · cases h
    · obtain rfl := Option.some.inj h
      exact ⟨rfl, rfl⟩
  have bound {label tag : String} {k : Metric.Kind} (h : boundMetric c family label tag k s = some m) :
      m.name = family ∧ m.kind = k := by
    obtain ⟨x, -, rfl⟩ := Option.map_eq_some_iff.mp h
    exact ⟨rfl, rfl⟩
  unfold sampleMetric at h
  split at h
  · exact value h
  · exact value h
  · exact value h
  · exact value h
  · split at h
    · exact bound h
    · cases h
  · split at h
    · exact bound h
    · cases h

theorem boundTag_free (hb : ¬ IsBound k key) (hd : ¬ IsDisplaced k key) (s : Sample) :
    boundTag k s key = none := by
  cases k <;> simp_all [IsBound, IsDisplaced, boundTag, boundNames]

theorem labelTag_free (hb : ¬ IsBound k key) (s : Sample) : labelTag k s key = s.label? key := by
  cases k <;> simp_all [IsBound, labelTag, boundNames, eq_comm]

theorem ownMetric_tag (hd : (o.2.2.labels.map (·.1)).Nodup) (h : ownMetric c ls o = some m)
    (hb : ¬ IsBound m.kind key) (hf : ¬ IsDisplaced m.kind key) :
    m.tags.get? key = (o.2.2.label? key).or (c.tags.get? key) := by
  rw [sampleMetric_tags hd h key, boundTag_free hb hf, labelTag_free hb, Option.none_or]

theorem label?_of_mem {l : String × String} (hd : (s.labels.map (·.1)).Nodup) (hl : l ∈ s.labels) :
    s.label? l.1 = some l.2 := by
  cases hf : s.labels.find? fun q => q.1 = l.1 with
  | none => exact absurd (List.find?_eq_none.mp hf l hl) (by simp)
  | some q =>
    have hq : q.1 = l.1 := of_decide_eq_true (List.find?_some (p := fun q : String × String => q.1 = l.1) hf)
    rw [Sample.label?, hf, List.inj_on_of_nodup_map hd (List.mem_of_find?_eq_some hf) hl hq]
    rfl

theorem owned_sampled (h : o ∈ owned ls) : .sample o.2.2 ∈ ls := by
  obtain ⟨earlier, l, later, rfl, hl⟩ := scan_split h
  cases l with
  | silent | kind => simp [ownedAt] at hl
  | sample s =>
    obtain rfl := Option.some.inj hl
    exact List.mem_append_right _ List.mem_cons_self

/-- All labels of a sample are tags of its metric, but for the one with the bound and the one that the bound
displaces. So two samples of which such a label differs have no metrics with one name and the same tags, if no
tags were given. -/
theorem labels_kept {timestamp : Timestamp} {tags : Dict String String} {body : String} {ms : List Metric}
    (h : read timestamp tags body = .ok ms) : ∃ ls, linesOf body = .ok ls ∧
      ms.Perm ((owned ls).filterMap (ownMetric ⟨timestamp, tags⟩ ls)) ∧
      (∀ o ∈ owned ls, ∀ m, ownMetric ⟨timestamp, tags⟩ ls o = some m → ∀ l ∈ o.2.2.labels,
        ¬ IsBound m.kind l.1 → ¬ IsDisplaced m.kind l.1 → m.tags.get? l.1 = some l.2) ∧
      (tags = .empty → ∀ o ∈ owned ls, ∀ p ∈ owned ls, ∀ m n,
        ownMetric ⟨timestamp, tags⟩ ls o = some m →
        ownMetric ⟨timestamp, tags⟩ ls p = some n →
        ∀ key, ¬ IsBound m.kind key → ¬ IsDisplaced m.kind key →
          o.2.2.label? key ≠ p.2.2.label? key → ¬ (m.name = n.name ∧ m.tags = n.tags)) := by
  obtain ⟨ls, hl, -⟩ := table_of_read h
  have distinct : ∀ o ∈ owned ls, (o.2.2.labels.map (·.1)).Nodup :=
    fun o ho => distinct_of_linesOf hl (owned_sampled ho)
  refine ⟨ls, hl, metrics_perm h hl, ?_, ?_⟩
  · intro o ho m hm l hmem hb hf
    rw [ownMetric_tag (distinct o ho) hm hb hf, label?_of_mem (distinct o ho) hmem, Option.some_or]
  · -- one name is one family, so one kind, and the label decides the tag in both metrics alike
    rintro rfl o ho p hp m n hm hn key hb hf hne ⟨hname, htags⟩
    obtain ⟨hmo, hmk⟩ := sampleMetric_family hm
    obtain ⟨hnp, hnk⟩ := sampleMetric_family hn
    have family : o.1 = p.1 := by rw [← hmo, hname, hnp]
    have kinds : m.kind = n.kind := by rw [hmk, hnk, family]
    have own := ownMetric_tag (distinct o ho) hm hb hf
    have other := ownMetric_tag (distinct p hp) hn (kinds ▸ hb) (kinds ▸ hf)
    rw [htags, other] at own
    apply hne
    simpa using own.symm

def zoned : String :=
  "# TYPE lat summary\nlat\x7bzone=\"a\",quantile=\"0.5\"\x7d 2\n" ++
    "lat\x7bzone=\"b\",quantile=\"0.5\"\x7d 2\nup\x7bbucket=\"x\"\x7d 1\n"

theorem labels_kept_zoned : ∃ ms, read ⟨0, 0⟩ .empty zoned = .ok ms ∧
    ms.map (fun m => m.tags.toList) =
      [[("quantile", "0.5"), ("zone", "a")], [("quantile", "0.5"), ("zone", "b")], [("bucket", "x")]] ∧
    ∃ ls, linesOf zoned = .ok ls ∧ ms.Perm ((owned ls).filterMap (ownMetric ⟨⟨0, 0⟩, .empty⟩ ls)) ∧
      ∀ o ∈ owned ls, ∀ m, ownMetric ⟨⟨0, 0⟩, .empty⟩ ls o = some m → ∀ l ∈ o.2.2.labels,
        ¬ IsBound m.kind l.1 → ¬ IsDisplaced m.kind l.1 → m.tags.get? l.1 = some l.2 := by
  have shown : (read ⟨0, 0⟩ .empty zoned).map (fun ms => ms.map fun m => m.tags.toList) =
      .ok [[("quantile", "0.5"), ("zone", "a")], [("quantile", "0.5"), ("zone", "b")], [("bucket", "x")]] := by
    decide +kernel
  cases h : read ⟨0, 0⟩ .empty zoned with
  | error e => simp [h, Except.map] at shown
  | ok ms =>
    rw [h] at shown
    obtain ⟨ls, hl, hp, hk, -⟩ := labels_kept h
    exact ⟨ms, rfl, Except.ok.inj shown, ls, hl, hp, hk⟩

def crowded : String :=
  "# TYPE h histogram\nh_bucket\x7bbucket=\"a\",le=\"1\"\x7d 1\nh_bucket\x7bbucket=\"b\",le=\"1\"\x7d 1\n"

def crowdedLines : List Line :=
  [.kind "h" .histogram, .sample ⟨"h_bucket", [("bucket", "a"), ("le", "1")], 1⟩,
    .sample ⟨"h_bucket", [("bucket", "b"), ("le", "1")], 1⟩]

theorem bucket_displaced : linesOf crowded = .ok crowdedLines ∧
    ∃ m, read ⟨0, 0⟩ .empty crowded = .ok [m, m] ∧ m.tags.toList = [("bucket", "1")] ∧
      ∃ o ∈ owned crowdedLines, ∃ p ∈ owned crowdedLines,
        ownMetric ⟨⟨0, 0⟩, .empty⟩ crowdedLines o = some m ∧
        ownMetric ⟨⟨0, 0⟩, .empty⟩ crowdedLines p = some m ∧
        o.2.2.label? "bucket" = some "a" ∧ p.2.2.label? "bucket" = some "b" ∧ ¬ IsBound m.kind "bucket" := by
  refine ⟨by decide +kernel,
    ⟨"h", Dict.ofList [("1", 1)], Dict.ofList [("bucket", "1")], ⟨0, 0⟩, .histogram⟩,
    by decide +kernel, by decide +kernel,
    ("h", 2, ⟨"h_bucket", [("bucket", "a"), ("le", "1")], 1⟩), by decide +kernel,
    ("h", 3, ⟨"h_bucket", [("bucket", "b"), ("le", "1")], 1⟩), by decide +kernel,
    by decide +kernel, by decide +kernel, rfl, rfl, by simp [IsBound]⟩

end ScrapeRelay.Exposition

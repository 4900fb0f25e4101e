import ScrapeRelay.Encoder
import ScrapeRelay.Proofs.Document.ReadBack
import ScrapeRelay.Proofs.Json.ReadBack
import ScrapeRelay.Proofs.Timestamp.ReadBack

/-!
Encoding is faithful: a metric is read back from its text, and where there is no text the entry is named that
has none.
-/

namespace ScrapeRelay

variable {m n : Metric}

namespace Metric

open Document (strict fields?)
open Document.Fields (required_bind)

/-! Reading -/

def values? : Json → Option (Dict String Float)
  | .obj members => (members.mapM fun m => (strict.real? m.2).map fun x => (m.1, x)).map Dict.ofList
  | _ => none

def timestamp? (j : Json) : Option Timestamp := (strict.text? j).bind fun s => Timestamp.readSigned? s.toList

def kind? (j : Json) : Option Kind := (strict.text? j).bind Kind.ofName?

def fieldNames : List String := ["name", "values", "tags", "timestamp", "vtype"]

def decode? (j : Json) : Option Metric := do
  let fs ← fields? strict fieldNames j
  let name ← fs.required "name" strict.text?
  let values ← fs.required "values" values?
  let tags ← fs.required "tags" (Document.texts? strict)
  let timestamp ← fs.required "timestamp" timestamp?
  let kind ← fs.required "vtype" kind?
  pure ⟨name, values, tags, timestamp, kind⟩

theorem values?_obj (d : Dict String Float) :
    values? (.obj (d.toList.map fun e => (e.1, .num (.real e.2)))) = some d :=
  Document.members_map (f := strict.real?) (e := fun x => .num (.real x)) fun _ _ => rfl

theorem timestamp?_text {t : Timestamp} (h : t.Sound) : timestamp? (.str t.text) = some t := by
  simp only [timestamp?, strict, Option.bind_some, Timestamp.text, String.toList_ofList]
  exact Timestamp.readSigned?_render h

theorem kind?_name (k : Kind) : kind? (.str k.name) = some k := by
  change Kind.ofName? k.name = some k
  cases k <;> simp [Kind.ofName?, Kind.all, Kind.name]

theorem decode?_toJson (h : m.timestamp.Sound) : decode? m.toJson = some m := by
  unfold decode?
  refine Option.bind_eq_some_iff.mpr ⟨_, rfl, ?_⟩
  refine required_bind (j := .str m.name) (by simp [Json.last?]) rfl ?_
  refine required_bind (by simp [Json.last?]) (values?_obj m.values) ?_
  refine required_bind (j := .texts m.tags) (by simp [Json.last?, Json.texts]) (Document.texts?_texts _) ?_
  refine required_bind (by simp [Json.last?]) (timestamp?_text h) ?_
  refine required_bind (by simp [Json.last?]) (kind?_name m.kind) ?_
  rfl

/-! Texts -/

theorem readable_toJson {d : ℕ} (h : ∀ k x, m.values.get? k = some x → x.isFinite = true) :
    Json.Readable (d + 2) m.toJson := by
  have values : Json.Readable (d + 1) (.obj (m.values.toList.map fun e => (e.1, .num (.real e.2)))) :=
    .map (e := fun x => .num (.real x)) fun e he => .num (.real (h e.1 e.2 (Dict.get?_eq_some.mpr he)))
  refine .obj ?_
  simp only [List.forall_mem_cons]
  exact ⟨.str _ _, values, .texts m.tags, .str _ _, .str _ _, by simp⟩

theorem read?_text (h : ∀ k x, m.values.get? k = some x → x.isFinite = true) :
    Json.read? m.toJson.text.toList = some m.toJson := by
  rw [Json.text, String.toList_ofList, Json.read?_write (readable_toJson (d := 125) h)]

end Metric

namespace Encoder

variable {e : Encoder} {p : String} {u : Unrepresentable}

theorem encode_eq_ok : e.encode m = .ok p ↔
    (∀ k x, m.values.get? k = some x → x.isFinite = true) ∧ m.toJson.text = p := by
  have clean : (m.values.toList.find? fun e => !e.2.isFinite) = none ↔
      ∀ k x, m.values.get? k = some x → x.isFinite = true := by
    simp only [List.find?_eq_none, Bool.not_eq_true, Bool.not_eq_false', Dict.get?_eq_some]
    exact ⟨fun h k x hx => h (k, x) hx, fun h e he => h e.1 e.2 he⟩
  rw [encode, ← clean]
  cases m.values.toList.find? fun e => !e.2.isFinite <;> simp

theorem encode_eq_error (h : e.encode m = .error u) :
    u.metric = m.name ∧ m.values.get? u.entry = some u.value ∧ u.value.isFinite = false ∧
    ∀ k x, m.values.get? k = some x → compare k u.entry = .lt → x.isFinite = true := by
  unfold encode at h
  split at h
  · rename_i entry value hfound
    cases h
    obtain ⟨hvalue, before, behind, hsplit, hbefore⟩ := List.find?_eq_some_iff_append.mp hfound
    -- The entries are sorted by key: those before the one that was found are just those with smaller keys.
    have sorted := m.values.sorted
    rw [show m.values.entries = before ++ (entry, value) :: behind from hsplit, List.pairwise_append,
      List.pairwise_cons] at sorted
    refine ⟨rfl, Dict.get?_eq_some.mpr ?_, by simpa using hvalue, fun k x hx hk => ?_⟩
    · rw [show m.values.entries = before ++ (entry, value) :: behind from hsplit]
      simp
    · rw [Dict.get?_eq_some, show m.values.entries = before ++ (entry, value) :: behind from hsplit,
        List.mem_append, List.mem_cons] at hx
      rcases hx with hx | hx | hx
      · simpa using hbefore _ hx
      · cases hx
        simp at hk
      · have := Std.TransCmp.lt_trans hk (sorted.2.1.1 _ hx)
        simp at this
  · cases h

def IsWord (word : String) (x : Float) : Prop :=
  x.isNaN = true ∧ word = "NaN" ∨ x = 1 / 0 ∧ word = "inf" ∨ x = -1 / 0 ∧ word = "-inf"

theorem isWord_text {x : Float} (h : x.isFinite = false) : IsWord (Decimal.text x) x := by
  rcases Decimal.unbounded_cases h with hx | rfl | rfl
  · exact .inl ⟨hx, by rw [Decimal.text, Decimal.Layout.spell, if_pos hx]⟩
  · exact .inr (.inl ⟨rfl, by decide +kernel⟩)
  · exact .inr (.inr ⟨rfl, by decide +kernel⟩)

/-- A metric is encoded if all its values are finite. Else the message names the first entry in key order that
is not, with its value and the metric. The payload is one object from which the metric is read back, so that no
two metrics have the same payload. -/
theorem encode_faithful (e : Encoder) (m : Metric) :
    ((∃ p, e.encode m = .ok p) ↔ ∀ k x, m.values.get? k = some x → x.isFinite = true) ∧
    (∀ u, e.encode m = .error u →
      m.values.get? u.entry = some u.value ∧ u.value.isFinite = false ∧
      (∀ k x, m.values.get? k = some x → compare k u.entry = .lt → x.isFinite = true) ∧
      ∃ word, IsWord word u.value ∧
        u.text = u.entry ++ " value " ++ word ++ " of " ++ m.name ++ " is not representable in JSON") ∧
    (∀ p, e.encode m = .ok p → ∃ members, Json.read? p.toList = some (.obj members) ∧
      members.map (·.1) = ["name", "values", "tags", "timestamp", "vtype"] ∧
      (m.timestamp.Sound → Metric.decode? (.obj members) = some m)) ∧
    (∀ n p, e.encode m = .ok p → e.encode n = .ok p → m.timestamp.Sound → n.timestamp.Sound →
      m = n) := by
  refine ⟨?_, fun u hu => ?_, fun p hp => ?_, fun n p hm hn soundM soundN => ?_⟩
  · simp only [encode_eq_ok, exists_and_left, exists_eq', and_true]
  · obtain ⟨hname, hget, hvalue, hbefore⟩ := encode_eq_error hu
    refine ⟨hget, hvalue, hbefore, Decimal.text u.value, isWord_text hvalue, ?_⟩
    rw [← hname]
    rfl
  · obtain ⟨hfinite, rfl⟩ := encode_eq_ok.mp hp
    exact ⟨_, Metric.read?_text hfinite, rfl, Metric.decode?_toJson⟩
  · obtain ⟨hfinite, rfl⟩ := encode_eq_ok.mp hm
    obtain ⟨hfinite', heq⟩ := encode_eq_ok.mp hn
    have same : m.toJson = n.toJson := by
      apply Option.some.inj
      rw [← Metric.read?_text hfinite, ← Metric.read?_text hfinite', heq]
    apply Option.some.inj
    rw [← Metric.decode?_toJson soundM, ← Metric.decode?_toJson soundN, same]

def odd : Metric where
  name := "a\"\\\n\x01é😀"
  values := .ofList [("counter", -0.0), ("+Inf", Float.ofBits 1), ("", 1e300)]
  tags := .ofList [("\t", "\x7b\"x\":1\x7d"), ("", "")]
  timestamp := ⟨253402300859, 1123456789⟩
  kind := .counter

def unbounded : Metric := { odd with values := .ofList [("c", 0 / 0), ("b", 1 / 0), ("a", 1)] }

theorem encode_faithful_odd : odd.timestamp.Sound ∧
    (∃ p members, json.encode odd = .ok p ∧ Json.read? p.toList = some (.obj members) ∧
      Metric.decode? (.obj members) = some odd) ∧
    ∃ u word, json.encode unbounded = .error u ∧ u.entry = "b" ∧ IsWord word u.value ∧
      u.text = "b value " ++ word ++ " of " ++ odd.name ++ " is not representable in JSON" := by
  have sound : odd.timestamp.Sound := ⟨by decide, by decide⟩
  have finite : ∀ e ∈ odd.values.entries, e.2.isFinite = true := by decide +kernel
  have refused : json.encode unbounded = .error ⟨"b", 1 / 0, odd.name⟩ := by rfl
  obtain ⟨p, hp⟩ := (encode_faithful json odd).1.mpr fun k x hx => finite (k, x) (Dict.get?_eq_some.mp hx)
  obtain ⟨members, hread, -, hback⟩ := (encode_faithful json odd).2.2.1 p hp
  obtain ⟨-, -, -, word, hword, htext⟩ := (encode_faithful json unbounded).2.1 _ refused
  exact ⟨sound, ⟨p, members, hp, hread, hback sound⟩, _, word, refused, rfl, hword, htext⟩

end Encoder

end ScrapeRelay

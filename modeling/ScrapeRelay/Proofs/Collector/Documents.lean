import ScrapeRelay.Collector.Spec
import ScrapeRelay.Proofs.Discovery.Documents

/-!
What is written of a collector is read back as the same but for the token of its broker, and so is what has more
in it.
-/

namespace ScrapeRelay

namespace Collector

variable {k : ℕ}

open Document (strict fields? list? list?_arr list?_strings nullable? nullable?_nullable nullable?_map)
open Document (RecordGrown Keeps keeps_record keeps_eq)
open Document.Fields (required_bind withDefault_bind)

namespace Broker

def tokenless (b : Broker) : Broker := { b with token := none }

theorem decode?_toJson (b : Broker) : decode? strict b.toJson = some b.tokenless := by
  unfold decode?
  refine Option.bind_eq_some_iff.mpr ⟨_, rfl, ?_⟩
  refine withDefault_bind (j := .str b.url) (by simp [Json.last?]) rfl ?_
  refine withDefault_bind (j := .str b.subject) (by simp [Json.last?]) rfl ?_
  refine Option.bind_eq_some_iff.mpr ⟨none, ?_, rfl⟩
  simp [Document.Fields.withDefault, Json.last?]

theorem readable_toJson (b : Broker) : Json.Readable (k + 1) b.toJson := by
  refine .obj ?_
  simp only [List.forall_mem_cons]
  exact ⟨.str _ _, .str _ _, by simp⟩

def Grown : Json → Json → Prop := RecordGrown standard.toJson [("url", Eq), ("subject", Eq), ("token", Eq)]

theorem keeps : Keeps Grown (decode? strict) := by
  refine keeps_record fun ms ms' h => ?_
  refine .bind (.withDefault (h "url" _ (by simp)) (keeps_eq _) (j := .str standard.url) ?_ rfl) fun _ => ?_
  · simp [Json.get?, toJson, Json.last?]
  refine .bind (.withDefault (h "subject" _ (by simp)) (keeps_eq _) (j := .str standard.subject) ?_ rfl)
    fun _ => ?_
  · simp [Json.get?, toJson, Json.last?]
  refine .bind (.unwritten (h "token" _ (by simp)) (keeps_eq _) ?_) fun _ => .refl _
  simp [Json.get?, toJson, Json.last?]

end Broker

namespace Output

def tokenless (o : Output) : Output := { o with nats := o.nats.map Broker.tokenless }

-- Of a record without fields only its presence is kept: the lookup that is read of it grows with the document.
def present? (j : Json) : Option Bool := (nullable? (fields? strict []) j).map Option.isSome

theorem decode?_eq (j : Json) : decode? strict j = (fields? strict ["nats", "stdout"] j >>= fun fs =>
    fs.withDefault "nats" none (nullable? (Broker.decode? strict)) >>= fun nats =>
      fs.withDefault "stdout" false present? >>= fun stdout => pure ⟨nats, stdout⟩) := by
  have flag (fs : Document.Fields) : fs.withDefault "stdout" false present? =
      (fs.withDefault "stdout" none (nullable? (fields? strict []))).map Option.isSome := by
    unfold Document.Fields.withDefault
    split <;> rfl
  simp only [decode?, flag, Option.bind_eq_bind, Option.bind_map, Function.comp_def]

theorem decode?_toJson (o : Output) : decode? strict o.toJson = some o.tokenless := by
  have stdout : present? (if o.stdout then .obj [] else .null) = some o.stdout := by
    cases o.stdout <;> rfl
  rw [decode?_eq]
  refine Option.bind_eq_some_iff.mpr ⟨_, rfl, ?_⟩
  have nats := nullable?_map (e := Broker.toJson) (o := o.nats) (fun _ => nofun) Broker.decode?_toJson
  refine withDefault_bind (by simp [Json.last?]) nats ?_
  exact withDefault_bind (by simp [Json.last?]) stdout rfl

theorem toJson_tokenless (o : Output) : o.tokenless.toJson = o.toJson := by
  obtain ⟨nats, stdout⟩ := o
  cases nats <;> rfl

theorem readable_toJson (o : Output) : Json.Readable (k + 2) o.toJson := by
  have stdout : Json.Readable (k + 1) (if o.stdout then .obj [] else .null) := by
    cases o.stdout with
    | true => exact .obj (by simp)
    | false => exact .null _
  refine .obj ?_
  simp only [List.forall_mem_cons]
  exact ⟨.nullable fun b _ => b.readable_toJson, stdout, by simp⟩

def Grown : Json → Json → Prop :=
  RecordGrown (toJson ⟨none, false⟩) [("nats", Broker.Grown), ("stdout", RecordGrown (.obj []) [])]

theorem keeps_present : Keeps (RecordGrown (.obj []) []) present? := by
  rintro j j' (rfl | ⟨ms, ms', rfl, rfl, -⟩)
  · exact .refl _
  · exact .refl (some true)

theorem keeps : Keeps Grown (decode? strict) := by
  simp only [funext decode?_eq]
  refine keeps_record fun ms ms' h => ?_
  refine .bind (.withDefault (h "nats" Broker.Grown (by simp)) Broker.keeps.nullable (j := .null) ?_ rfl)
    fun _ => ?_
  · simp [Json.get?, toJson, Json.last?, Json.nullable]
  refine .bind (.withDefault (h "stdout" _ (by simp)) keeps_present (j := .null) ?_ rfl) fun _ => .refl _
  simp [Json.get?, toJson, Json.last?]

end Output

namespace Clip

theorem decode?_toJson (c : Clip) : decode? strict c.toJson = some c := by
  unfold decode?
  refine Option.bind_eq_some_iff.mpr ⟨_, rfl, ?_⟩
  refine withDefault_bind (j := real c.min) (by simp [Json.last?]) rfl ?_
  refine withDefault_bind (j := real c.max) (by simp [Json.last?]) rfl ?_
  exact withDefault_bind (j := .bool c.inclusive) (by simp [Json.last?]) rfl rfl

theorem readable_toJson {c : Clip} (hmin : c.min.isFinite = true) (hmax : c.max.isFinite = true) :
    Json.Readable (k + 1) c.toJson := by
  refine .obj ?_
  simp only [List.forall_mem_cons]
  exact ⟨.num (.real hmin), .num (.real hmax), .bool _ _, by simp⟩

def Grown : Json → Json → Prop := RecordGrown standard.toJson [("min", Eq), ("max", Eq), ("inclusive", Eq)]

theorem keeps : Keeps Grown (decode? strict) := by
  refine keeps_record fun ms ms' h => ?_
  refine .bind (.withDefault (h "min" _ (by simp)) (keeps_eq _) (j := real standard.min) ?_ rfl) fun _ => ?_
  · simp [Json.get?, toJson, Json.last?]
  refine .bind (.withDefault (h "max" _ (by simp)) (keeps_eq _) (j := real standard.max) ?_ rfl) fun _ => ?_
  · simp [Json.get?, toJson, Json.last?]
  refine .bind (.withDefault (h "inclusive" _ (by simp)) (keeps_eq _) (j := .bool false) ?_ rfl) fun _ => .refl _
  simp [Json.get?, toJson, Json.last?, standard]

end Clip

namespace Filters

def excludeJson (values : List Float) : Json := .obj [("values", .arr (values.map Clip.real))]

theorem decodeExclude?_json (values : List Float) : decodeExclude? strict (excludeJson values) = some values := by
  have listed : list? strict.real? (.arr (values.map Clip.real)) = some values := list?_arr fun _ _ => rfl
  unfold decodeExclude?
  refine Option.bind_eq_some_iff.mpr ⟨_, rfl, ?_⟩
  simpa [Document.Fields.withDefault, Json.last?] using listed

theorem decode?_toJson (f : Filters) : decode? strict f.toJson = some f := by
  have clip := nullable?_nullable (e := Clip.toJson) f.clip (fun _ => nofun) Clip.decode?_toJson
  have exclude := nullable?_nullable (e := excludeJson) f.exclude (fun _ => nofun) decodeExclude?_json
  unfold decode?
  refine Option.bind_eq_some_iff.mpr ⟨_, rfl, ?_⟩
  refine withDefault_bind (by simp [Json.last?]) clip ?_
  exact withDefault_bind (by simp [Json.last?]; rfl) exclude rfl

structure Finite (f : Filters) : Prop where
  clip : ∀ c, f.clip = some c → c.min.isFinite = true ∧ c.max.isFinite = true
  exclude : ∀ values, f.exclude = some values → ∀ x ∈ values, x.isFinite = true

theorem readable_toJson {f : Filters} (h : f.Finite) : Json.Readable (k + 3) f.toJson := by
  have exclude (values) (hv : f.exclude = some values) : Json.Readable (k + 2) (excludeJson values) := by
    refine .obj ?_
    simp only [List.forall_mem_cons]
    exact ⟨.list fun x hx => .num (.real (h.exclude values hv x hx)), by simp⟩
  refine .obj ?_
  simp only [List.forall_mem_cons]
  exact ⟨.nullable fun c hc => Clip.readable_toJson (h.clip c hc).1 (h.clip c hc).2,
    .nullable exclude, by simp⟩

def ExcludeGrown : Json → Json → Prop := RecordGrown (excludeJson []) [("values", Eq)]

theorem keeps_exclude : Keeps ExcludeGrown (decodeExclude? strict) := by
  refine keeps_record fun ms ms' h => ?_
  refine .withDefault (h "values" _ (by simp)) (keeps_eq _) (j := .arr []) ?_ rfl
  simp [Json.get?, excludeJson, Json.last?]

def Grown : Json → Json → Prop :=
  RecordGrown (toJson ⟨none, none⟩) [("clip", Clip.Grown), ("exclude", ExcludeGrown)]

theorem keeps : Keeps Grown (decode? strict) := by
  refine keeps_record fun ms ms' h => ?_
  refine .bind (.withDefault (h "clip" Clip.Grown (by simp)) Clip.keeps.nullable (j := .null) ?_ rfl) fun _ => ?_
  · simp [Json.get?, toJson, Json.last?, Json.nullable]
  have exclude := keeps_exclude.nullable
  refine .bind (.withDefault (h "exclude" ExcludeGrown (by simp)) exclude (j := .null) ?_ rfl) fun _ => .refl _
  simp [Json.get?, toJson, Json.last?, Json.nullable]

end Filters

namespace Tls

theorem decode?_toJson (t : Tls) : decode? strict t.toJson = some t := by
  have path (o : Option String) : nullable? strict.text? (.nullable .str o) = some o :=
    nullable?_nullable o (fun _ => nofun) Document.text?_str
  unfold decode?
  refine Option.bind_eq_some_iff.mpr ⟨_, rfl, ?_⟩
  refine withDefault_bind (by simp [Json.last?]) (path t.ca) ?_
  refine withDefault_bind (by simp [Json.last?]) (path t.cert) ?_
  refine withDefault_bind (by simp [Json.last?]) (path t.key) ?_
  exact withDefault_bind (j := .bool t.insecure) (by simp [Json.last?]) rfl rfl

theorem readable_toJson (t : Tls) : Json.Readable (k + 1) t.toJson := by
  have path (o : Option String) : Json.Readable k (.nullable .str o) := .nullable fun s _ => .str _ s
  refine .obj ?_
  simp only [List.forall_mem_cons]
  exact ⟨path _, path _, path _, .bool _ _, by simp⟩

def Grown : Json → Json → Prop :=
  RecordGrown (toJson ⟨none, none, none, false⟩)
    [("ca", Eq), ("cert", Eq), ("key", Eq), ("insecure_skip_verify", Eq)]

theorem keeps : Keeps Grown (decode? strict) := by
  refine keeps_record fun ms ms' h => ?_
  refine .bind (.withDefault (h "ca" _ (by simp)) (keeps_eq _) (j := .null) ?_ rfl) fun _ => ?_
  · simp [Json.get?, toJson, Json.last?, Json.nullable]
  refine .bind (.withDefault (h "cert" _ (by simp)) (keeps_eq _) (j := .null) ?_ rfl) fun _ => ?_
  · simp [Json.get?, toJson, Json.last?, Json.nullable]
  refine .bind (.withDefault (h "key" _ (by simp)) (keeps_eq _) (j := .null) ?_ rfl) fun _ => ?_
  · simp [Json.get?, toJson, Json.last?, Json.nullable]
  have skip := h "insecure_skip_verify" Eq (by simp)
  refine .bind (.withDefault skip (keeps_eq _) (j := .bool false) ?_ rfl) fun _ => .refl _
  simp [Json.get?, toJson, Json.last?]

end Tls

namespace Spec

def tokenless (s : Spec) : Spec := { s with output := s.output.tokenless }

theorem decode?_toJson (s : Spec) : decode? strict s.toJson = some s.tokenless := by
  have tls := nullable?_nullable (e := Tls.toJson) s.tls (fun _ => nofun) Tls.decode?_toJson
  unfold decode?
  refine Option.bind_eq_some_iff.mpr ⟨_, rfl, ?_⟩
  refine withDefault_bind (j := .bool s.enabled) (by simp [Json.last?]) rfl ?_
  refine withDefault_bind (j := .nat s.workers) (by simp [Json.last?]) rfl ?_
  refine withDefault_bind (j := .nat s.bufferSize) (by simp [Json.last?]) rfl ?_
  refine withDefault_bind (j := .str s.encoder) (by simp [Json.last?]) rfl ?_
  refine withDefault_bind (j := .bool s.selection.metadata) (by simp [Json.last?]) rfl ?_
  refine withDefault_bind (by simp [Json.last?]) (list?_strings s.selection.labels) ?_
  refine withDefault_bind (by simp [Json.last?]) (list?_strings s.selection.annotations) ?_
  refine withDefault_bind (by simp [Json.last?]) s.output.decode?_toJson ?_
  refine withDefault_bind (by simp [Json.last?]) s.filters.decode?_toJson ?_
  exact withDefault_bind (by simp [Json.last?]) tls rfl

structure Fits (s : Spec) : Prop where
  workers : s.workers < UInt64.size
  bufferSize : s.bufferSize < UInt64.size
  filters : s.filters.Finite

theorem readable_toJson {s : Spec} (h : s.Fits) : Json.Readable (k + 4) s.toJson := by
  refine .obj ?_
  simp only [List.forall_mem_cons]
  exact ⟨.bool _ _, .nat h.workers, .nat h.bufferSize, .str _ _, .bool _ _, .strings _, .strings _,
    s.output.readable_toJson, Filters.readable_toJson h.filters, .nullable fun t _ => t.readable_toJson, by simp⟩

theorem read?_toJson {s : Spec} (h : s.Fits) : Json.read? s.toJson.write = some s.toJson :=
  Json.read?_write (readable_toJson (k := 123) h)

theorem toJson_tokenless (s : Spec) : s.tokenless.toJson = s.toJson := by
  simp only [toJson, tokenless, Output.toJson_tokenless]

def Grown : Json → Json → Prop :=
  RecordGrown standard.toJson [("enabled", Eq), ("workers", Eq), ("buffer_size", Eq), ("encoder", Eq),
    ("include_metadata", Eq), ("include_labels", Eq), ("include_annotations", Eq), ("output", Output.Grown),
    ("filters", Filters.Grown), ("tls", Tls.Grown)]

theorem keeps : Keeps Grown (decode? strict) := by
  refine keeps_record fun ms ms' h => ?_
  refine .bind (.withDefault (h "enabled" _ (by simp)) (keeps_eq _) (j := .bool true) ?_ rfl) fun _ => ?_
  · simp [Json.get?, toJson, Json.last?, standard]
  refine .bind (.withDefault (h "workers" _ (by simp)) (keeps_eq _) (j := .nat 1) ?_ rfl) fun _ => ?_
  · simp [Json.get?, toJson, Json.last?, standard]
  refine .bind (.withDefault (h "buffer_size" _ (by simp)) (keeps_eq _) (j := .nat 10000) ?_ rfl) fun _ => ?_
  · simp [Json.get?, toJson, Json.last?, standard]
  refine .bind (.withDefault (h "encoder" _ (by simp)) (keeps_eq _) (j := .str "json") ?_ rfl) fun _ => ?_
  · simp [Json.get?, toJson, Json.last?, standard]
  refine .bind (.withDefault (h "include_metadata" _ (by simp)) (keeps_eq _) (j := .bool false) ?_ rfl) fun _ => ?_
  · simp [Json.get?, toJson, Json.last?, standard]
  refine .bind (.withDefault (h "include_labels" _ (by simp)) (keeps_eq _) (j := .strings []) ?_ rfl) fun _ => ?_
  · simp [Json.get?, toJson, Json.last?, standard]
  refine .bind (.withDefault (h "include_annotations" _ (by simp)) (keeps_eq _) (j := .strings []) ?_ rfl)
    fun _ => ?_
  · simp [Json.get?, toJson, Json.last?, standard]
  have output := Output.decode?_toJson ⟨none, false⟩
  refine .bind (.withDefault (h "output" _ (by simp)) Output.keeps ?_ output) fun _ => ?_
  · simp [Json.get?, toJson, Json.last?, standard]
  have filters := Filters.decode?_toJson ⟨none, none⟩
  refine .bind (.withDefault (h "filters" _ (by simp)) Filters.keeps ?_ filters) fun _ => ?_
  · simp [Json.get?, toJson, Json.last?, standard]
  refine .bind (.withDefault (h "tls" Tls.Grown (by simp)) Tls.keeps.nullable (j := .null) ?_ rfl) fun _ => .refl _
  simp [Json.get?, toJson, Json.last?, standard, Json.nullable]

end Spec

/-- Specs are read back from their texts, those of collectors without the token of the broker, which no text
depends on. Fields that a record does not know and fields that are written as if they had not been left out
change nothing. -/
theorem specs_survive :
    (∀ s : Discovery.Spec, Discovery.Spec.decode? strict s.toJson = some s) ∧
    (∀ s : Discovery.Spec, s.Fits →
      (Json.read? s.toJson.write).bind (Discovery.Spec.decode? strict) = some s) ∧
    (∀ s : Spec, s.filters.Finite → Spec.decode? strict s.toJson = some s.tokenless) ∧
    (∀ s : Spec, s.Fits → (Json.read? s.toJson.write).bind (Spec.decode? strict) = some s.tokenless) ∧
    (∀ s s' : Spec, s.tokenless = s'.tokenless → s.toJson = s'.toJson) ∧
    (∀ j j' s, Discovery.Spec.Grown j j' → Discovery.Spec.decode? strict j = some s →
      Discovery.Spec.decode? strict j' = some s) ∧
    (∀ j j' s, Spec.Grown j j' → Spec.decode? strict j = some s → Spec.decode? strict j' = some s) := by
  refine ⟨Discovery.Spec.decode?_toJson, fun s h => ?_, fun s _ => s.decode?_toJson, fun s h => ?_,
    fun s s' h => ?_, fun j j' s h => Discovery.Spec.keeps j j' h s, fun j j' s h => Spec.keeps j j' h s⟩
  · rw [Discovery.Spec.read?_toJson h, Option.bind_some, Discovery.Spec.decode?_toJson]
  · rw [Spec.read?_toJson h, Option.bind_some, Spec.decode?_toJson]
  · rw [← s.toJson_tokenless, ← s'.toJson_tokenless, h]

def guarded (token : String) : Spec := { Spec.standard with
  output := ⟨some ⟨"nats://broker", "metrics", some token⟩, true⟩
  filters := ⟨some ⟨Float.ofBits 1, Float.ofBits 0x7fefffffffffffff, true⟩, some [-0.0]⟩ }

def sparse : Json :=
  .obj [("resources", .obj [("pods", .bool false)]), ("collectors", .arr [.obj [("name", .str "c")]])]

def fuller : Json := .obj [("note", .null), ("enabled", .bool true), ("send_timeout_seconds", .null),
  ("resources", .obj [("pods", .bool false), ("note", .null), ("services", .bool true)]),
  ("collectors", .arr [.obj [("name", .str "c"), ("namespace", .str ""), ("note", .null)]])]

theorem sparse_grown : Discovery.Spec.Grown sparse fuller := by
  have collector : Discovery.CollectorRef.Grown (.obj [("name", .str "c")])
      (.obj [("name", .str "c"), ("namespace", .str ""), ("note", .null)]) := by
    refine .inr ⟨_, _, rfl, rfl, ?_⟩
    simp [Document.FieldGrown, Json.last?, Json.get?, Discovery.CollectorRef.toJson]
  have resources : Discovery.Resources.Grown (.obj [("pods", .bool false)])
      (.obj [("pods", .bool false), ("note", .null), ("services", .bool true)]) := by
    refine .inr ⟨_, _, rfl, rfl, ?_⟩
    simp [Document.FieldGrown, Json.last?, Discovery.Resources.written]
  refine .inr ⟨_, _, rfl, rfl, ?_⟩
  simp [Document.FieldGrown, Json.last?, Json.get?, Discovery.Spec.toJson, Discovery.Spec.standard, Json.nullable,
    resources]
  exact .inr ⟨_, _, rfl, rfl, .cons collector .nil⟩

theorem specs_survive_guarded : (guarded "a").Fits ∧ (guarded "a").tokenless = (guarded "b").tokenless ∧
    (Json.read? (guarded "a").toJson.write).bind (Spec.decode? strict) = some (guarded "b").tokenless ∧
    (guarded "a").toJson = (guarded "b").toJson ∧
    ∃ s, Discovery.Spec.decode? strict sparse = some s ∧ Discovery.Spec.decode? strict fuller = some s := by
  obtain ⟨-, -, -, texts, secret, grown, -⟩ := specs_survive
  have fits : (guarded "a").Fits := by
    refine ⟨by decide, by decide, ⟨?_, ?_⟩⟩
    · rintro c ⟨⟩
      exact ⟨by decide +kernel, by decide +kernel⟩
    · rintro values ⟨⟩
      decide +kernel
  have read : (Discovery.Spec.decode? strict sparse).isSome = true := by decide +kernel
  obtain ⟨s, hs⟩ := Option.isSome_iff_exists.mp read
  exact ⟨fits, rfl, texts _ fits, secret _ _ rfl, s, hs, grown _ _ s sparse_grown hs⟩

end Collector

end ScrapeRelay

import ScrapeRelay.Discovery.Spec
import ScrapeRelay.Proofs.Document.Grown
import ScrapeRelay.Proofs.Document.ReadBack
import ScrapeRelay.Proofs.Json.ReadBack

/-!
What is written of a discovery is read back as the same, and so is what has more in it.
-/

namespace ScrapeRelay

variable {k : ℕ}

open Document (strict fields? list? list?_arr RecordGrown ListGrown Keeps Kept keeps_record keeps_eq)
open Document.Fields (required_bind withDefault_bind)

namespace Cluster

namespace Requirement

theorem decode?_toJson (q : Requirement) : decode? strict q.toJson = some q := by
  have operator : (strict.choice? (.str q.operator.name)).bind Operator.ofName? = some q.operator := by
    change Operator.ofName? q.operator.name = some q.operator
    cases q.operator <;> simp [Operator.ofName?, Operator.name]
  unfold decode?
  refine Option.bind_eq_some_iff.mpr ⟨_, rfl, ?_⟩
  refine required_bind (j := .str q.key) (by simp [Json.last?]) rfl ?_
  refine required_bind (by simp [Json.last?]) operator ?_
  refine withDefault_bind (by simp [Json.last?]) (Document.list?_strings q.values) ?_
  rfl

theorem readable_toJson (q : Requirement) : Json.Readable (k + 2) q.toJson := by
  refine .obj ?_
  simp only [List.forall_mem_cons]
  exact ⟨.str _ _, .str _ _, .strings _, by simp⟩

def Grown : Json → Json → Prop :=
  RecordGrown (toJson ⟨"", .isIn, []⟩) [("key", Eq), ("operator", Eq), ("values", Eq)]

theorem keeps : Keeps Grown (decode? strict) := by
  refine keeps_record fun ms ms' h => ?_
  refine .bind (.required (h "key" _ (by simp)) (keeps_eq _)) fun key => ?_
  refine .bind (.required (h "operator" _ (by simp)) (keeps_eq _)) fun operator => ?_
  refine .bind (.withDefault (h "values" _ (by simp)) (keeps_eq _) (j := .strings []) ?_ rfl) fun values => .refl _
  simp [Json.get?, toJson, Json.last?]

end Requirement

namespace Selector

theorem decode?_toJson (s : Selector) : decode? strict s.toJson = some s := by
  unfold decode?
  refine Option.bind_eq_some_iff.mpr ⟨_, rfl, ?_⟩
  refine withDefault_bind (by simp [Json.last?]) (Document.texts?_texts s.labels) ?_
  have requirements := list?_arr (l := s.requirements) fun q _ => q.decode?_toJson
  refine withDefault_bind (by simp [Json.last?]) requirements ?_
  rfl

theorem readable_toJson (s : Selector) : Json.Readable (k + 4) s.toJson := by
  refine .obj ?_
  simp only [List.forall_mem_cons]
  exact ⟨.texts _, .list fun q _ => q.readable_toJson, by simp⟩

def Grown : Json → Json → Prop :=
  RecordGrown everything.toJson [("match_labels", Eq), ("match_expressions", ListGrown Requirement.Grown)]

theorem keeps : Keeps Grown (decode? strict) := by
  refine keeps_record fun ms ms' h => ?_
  refine .bind (.withDefault (h "match_labels" _ (by simp)) (keeps_eq _) (j := .texts .empty) ?_ rfl)
    fun labels => ?_
  · simp [Json.get?, toJson, everything, Json.last?]
  have requirements := Requirement.keeps.list
  refine .bind (.withDefault (h "match_expressions" _ (by simp)) requirements (j := .arr []) ?_ rfl)
    fun _ => .refl _
  simp [Json.get?, toJson, everything, Json.last?]

end Selector

end Cluster

namespace Discovery

namespace CollectorRef

theorem decode?_toJson (c : CollectorRef) : decode? strict c.toJson = some c := by
  unfold decode?
  refine Option.bind_eq_some_iff.mpr ⟨_, rfl, ?_⟩
  refine withDefault_bind (j := .str c.namespace) (by simp [Json.last?]) rfl ?_
  refine required_bind (j := .str c.name) (by simp [Json.last?]) rfl ?_
  rfl

theorem readable_toJson (c : CollectorRef) : Json.Readable (k + 1) c.toJson := by
  refine .obj ?_
  simp only [List.forall_mem_cons]
  exact ⟨.str _ _, .str _ _, by simp⟩

def Grown : Json → Json → Prop := RecordGrown (toJson ⟨"", ""⟩) [("namespace", Eq), ("name", Eq)]

theorem keeps : Keeps Grown (decode? strict) := by
  refine keeps_record fun ms ms' h => ?_
  refine .bind (.withDefault (h "namespace" _ (by simp)) (keeps_eq _) (j := .str "") ?_ rfl) fun home => ?_
  · simp [Json.get?, toJson, Json.last?]
  exact .bind (.required (h "name" _ (by simp)) (keeps_eq _)) fun name => .refl _

end CollectorRef

namespace Resources

theorem decode?_toJson (x : Resources) : decode? strict x.toJson = some x := by
  unfold decode?
  refine Option.bind_eq_some_iff.mpr ⟨_, rfl, ?_⟩
  refine withDefault_bind (j := .bool x.pods) (by simp [Json.last?]) rfl ?_
  refine withDefault_bind (j := .bool x.services) (by simp [Json.last?]) rfl ?_
  refine withDefault_bind (j := .bool x.endpoints) (by simp [Json.last?]) rfl ?_
  rfl

theorem readable_toJson (x : Resources) : Json.Readable (k + 1) x.toJson := by
  refine .obj ?_
  simp only [List.forall_mem_cons]
  exact ⟨.bool _ _, .bool _ _, .bool _ _, by simp⟩

def Grown : Json → Json → Prop := RecordGrown all.toJson [("pods", Eq), ("services", Eq), ("endpoints", Eq)]

theorem written {name : String} (h : name ∈ ["pods", "services", "endpoints"]) :
    all.toJson.get? name = some (.bool true) := by
  simp only [List.mem_cons, List.not_mem_nil, or_false] at h
  rcases h with rfl | rfl | rfl <;> simp [Json.get?, toJson, all, Json.last?]

theorem keeps : Keeps Grown (decode? strict) := by
  refine keeps_record fun ms ms' h => ?_
  refine .bind (.withDefault (h "pods" _ (by simp)) (keeps_eq _) (written (by simp)) rfl) fun pods => ?_
  refine .bind (.withDefault (h "services" _ (by simp)) (keeps_eq _) (written (by simp)) rfl) fun services => ?_
  exact .bind (.withDefault (h "endpoints" _ (by simp)) (keeps_eq _) (written (by simp)) rfl)
    fun endpoints => .refl _

end Resources

namespace Spec

theorem decode?_toJson (s : Spec) : decode? strict s.toJson = some s := by
  have collectors := list?_arr (l := s.collectors) fun c _ => c.decode?_toJson
  have timeout :=
    Document.nullable?_nullable (e := .nat) s.sendTimeoutSeconds (fun _ => nofun) Document.natural?_nat
  unfold decode?
  refine Option.bind_eq_some_iff.mpr ⟨_, rfl, ?_⟩
  refine withDefault_bind (by simp [Json.last?]) collectors ?_
  refine withDefault_bind (by simp [Json.last?]) s.selector.decode?_toJson ?_
  refine withDefault_bind (j := .bool s.enabled) (by simp [Json.last?]) rfl ?_
  refine withDefault_bind (j := .nat s.intervalSeconds) (by simp [Json.last?]) rfl ?_
  refine withDefault_bind (j := .str s.annotationPrefix) (by simp [Json.last?]) rfl ?_
  refine withDefault_bind (by simp [Json.last?]) s.resources.decode?_toJson ?_
  refine withDefault_bind (by simp [Json.last?]) timeout ?_
  rfl

structure Fits (s : Spec) : Prop where
  interval : s.intervalSeconds < UInt64.size
  sendTimeout : ∀ t, s.sendTimeoutSeconds = some t → t < UInt64.size

theorem readable_toJson {s : Spec} (h : s.Fits) : Json.Readable (k + 5) s.toJson := by
  refine .obj ?_
  simp only [List.forall_mem_cons]
  exact ⟨.list fun c _ => c.readable_toJson, s.selector.readable_toJson, .bool _ _, .nat h.interval, .str _ _,
    s.resources.readable_toJson, .nullable fun t ht => .nat (h.sendTimeout t ht), by simp⟩

theorem read?_toJson {s : Spec} (h : s.Fits) : Json.read? s.toJson.write = some s.toJson :=
  Json.read?_write (readable_toJson (k := 122) h)

def Grown : Json → Json → Prop :=
  RecordGrown standard.toJson [("collectors", ListGrown CollectorRef.Grown), ("selector", Cluster.Selector.Grown),
    ("enabled", Eq), ("interval_seconds", Eq), ("prefix", Eq), ("resources", Resources.Grown),
    ("send_timeout_seconds", Eq)]

theorem keeps : Keeps Grown (decode? strict) := by
  refine keeps_record fun ms ms' h => ?_
  refine .bind (.withDefault (h "collectors" _ (by simp)) CollectorRef.keeps.list (j := .arr []) ?_ rfl)
    fun _ => ?_
  · simp [Json.get?, toJson, standard, Json.last?]
  have selector := Cluster.Selector.everything.decode?_toJson
  refine .bind (.withDefault (h "selector" _ (by simp)) Cluster.Selector.keeps ?_ selector) fun _ => ?_
  · simp [Json.get?, toJson, standard, Json.last?]
  refine .bind (.withDefault (h "enabled" _ (by simp)) (keeps_eq _) (j := .bool true) ?_ rfl) fun _ => ?_
  · simp [Json.get?, toJson, standard, Json.last?]
  refine .bind (.withDefault (h "interval_seconds" _ (by simp)) (keeps_eq _) (j := .nat 10) ?_ rfl) fun _ => ?_
  · simp [Json.get?, toJson, standard, Json.last?]
  refine .bind (.withDefault (h "prefix" _ (by simp)) (keeps_eq _) (j := .str "prometheus.io") ?_ rfl) fun _ => ?_
  · simp [Json.get?, toJson, standard, Json.last?]
  have resources := Resources.all.decode?_toJson
  refine .bind (.withDefault (h "resources" _ (by simp)) Resources.keeps ?_ resources) fun _ => ?_
  · simp [Json.get?, toJson, standard, Json.last?]
  refine .bind (.withDefault (h "send_timeout_seconds" _ (by simp)) (keeps_eq _) (j := .null) ?_ rfl)
    fun _ => .refl _
  simp [Json.get?, toJson, standard, Json.last?, Json.nullable]

end Spec

end Discovery

end ScrapeRelay

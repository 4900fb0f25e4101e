import Mathlib.Data.List.Basic
import ScrapeRelay.Discovery.Scan
import ScrapeRelay.Proofs.Dict

/-!
Where the targets of a scan come from. Every target has an origin in the inventory: a pod, a service with an
address of its own, or a ready address behind a headless service. A scan lists the origins that yield a target,
each once and in order, whatever changed the inventory before.
-/

namespace ScrapeRelay.Cluster

open Std

namespace Inventory

inductive Stocked : Inventory → Prop
  | declared (d : Declared) : Stocked (.ofDeclared d)
  | putPod {i : Inventory} (h : Stocked i) (p : Pod) : Stocked (i.putPod p)
  | putService {i : Inventory} (h : Stocked i) (x : Service) : Stocked (i.putService x)
  | putEndpoints {i : Inventory} (h : Stocked i) (e : Endpoints) : Stocked (i.putEndpoints e)
  | putCollector {i : Inventory} (h : Stocked i) (k : Key) (c : Collector.Spec) : Stocked (i.putCollector k c)
  | removePod {i : Inventory} (h : Stocked i) (k : Key) : Stocked (i.removePod k)
  | removeCollector {i : Inventory} (h : Stocked i) (k : Key) : Stocked (i.removeCollector k)

structure Keyed (i : Inventory) : Prop where
  pods : ∀ k p, i.pods.get? k = some p → p.info.key = k
  services : ∀ k x, i.services.get? k = some x → x.info.key = k
  endpoints : ∀ k e, i.endpoints.get? k = some e → e.info.key = k

namespace Keyed

variable {i : Inventory}

theorem empty : Keyed .empty := by
  constructor <;> simp [Inventory.empty]

theorem putPod (h : Keyed i) (p : Pod) : Keyed (i.putPod p) :=
  { h with pods := Dict.forall_insert h.pods rfl }

theorem putService (h : Keyed i) (x : Service) : Keyed (i.putService x) :=
  { h with services := Dict.forall_insert h.services rfl }

theorem putEndpoints (h : Keyed i) (e : Endpoints) : Keyed (i.putEndpoints e) :=
  { h with endpoints := Dict.forall_insert h.endpoints rfl }

theorem foldl {α : Type} {put : Inventory → α → Inventory} (hput : ∀ i a, Keyed i → Keyed (put i a))
    (h : Keyed i) (l : List α) : Keyed (l.foldl put i) := by
  induction l generalizing i with
  | nil => exact h
  | cons a rest ih => exact ih (hput i a h)

theorem ofDeclared (d : Declared) : Keyed (.ofDeclared d) := by
  have pods := foldl (fun _ p h => h.putPod p) empty d.pods
  have services := foldl (fun _ x h => h.putService x) pods d.services
  exact foldl (fun _ e h => h.putEndpoints e) services d.endpoints

end Keyed

theorem Stocked.keyed {i : Inventory} (h : Stocked i) : Keyed i := by
  induction h with
  | declared d => exact .ofDeclared d
  | putPod _ p ih => exact ih.putPod p
  | putService _ x ih => exact ih.putService x
  | putEndpoints _ e ih => exact ih.putEndpoints e
  | putCollector _ k c ih => exact { ih with }
  | removePod _ k ih => exact { ih with pods := Dict.forall_erase ih.pods }
  | removeCollector _ k ih => exact { ih with }

end Inventory

end ScrapeRelay.Cluster

namespace ScrapeRelay

structure Target.Obeys (t : Target) (annotationPrefix : String) : Prop where
  asked : t.annotations.get? (annotationPrefix ++ "/scrape") = some "true"
  scrape : t.scrape = true
  scheme : t.scheme = (t.annotations.get? (annotationPrefix ++ "/scheme")).getD "http"
  port : t.port = (t.annotations.get? (annotationPrefix ++ "/port")).getD "9090"
  path : t.path = (t.annotations.get? (annotationPrefix ++ "/path")).getD "/metrics"
  metadata : t.includeMetadata = true ↔ t.annotations.get? (annotationPrefix ++ "/includeMetadata") = some "true"
  labels : t.includeLabels =
    ((t.annotations.get? (annotationPrefix ++ "/includeLabels")).map Text.commaList).getD []
  annotations : t.includeAnnotations =
    ((t.annotations.get? (annotationPrefix ++ "/includeAnnotations")).map Text.commaList).getD []

namespace Discovery

open Std
open Cluster (Inventory Meta Reference Pod Service Endpoints Address Subset)

inductive Origin where
  | pod (k : Key)
  | service (k : Key)
  /-- By the places of its subset in the endpoints under a key and of itself in the subset. -/
  | address (k : Key) (subset place : Nat)
  deriving DecidableEq

/-- Pods come first, then services in which the addresses of a headless one stand for it; each kind by its keys. -/
def Origin.Before : Origin → Origin → Prop
  | pod k, pod k' => compare k k' = .lt
  | pod _, _ => True
  | _, pod _ => False
  | address k m n, address k' m' n' => compare k k' = .lt ∨ k = k' ∧ (m < m' ∨ m = m' ∧ n < n')
  | service k, service k' | service k, address k' _ _ | address k _ _, service k' => compare k k' = .lt

theorem Origin.before_irrefl (o : Origin) : ¬ o.Before o := by
  cases o <;> simp [Before]

theorem Origin.before_asymm {o o' : Origin} (h : o.Before o') : ¬ o'.Before o := by
  have key {k k' : Key} (h : compare k k' = .lt) : compare k' k ≠ .lt := by
    rw [OrientedCmp.gt_of_lt h]
    decide
  cases o with
  | pod k =>
    cases o' with
    | pod k' => exact key h
    | service | address => exact id
  | service k =>
    cases o' with
    | pod => exact h.elim
    | service k' | address k' => exact key h
  | address k m n =>
    cases o' with
    | pod => exact h.elim
    | service k' => exact key h
    | address k' m' n' =>
      rintro (h' | ⟨rfl, h'⟩)
      · obtain h | ⟨rfl, -⟩ := h
        · exact key h h'
        · simp at h'
      · obtain h | ⟨-, h⟩ := h
        · simp at h
        · omega

theorem eq_of_ordered {l m : List (Origin × Target)} (hl : l.Pairwise fun a b => a.1.Before b.1)
    (hm : m.Pairwise fun a b => a.1.Before b.1) (h : ∀ o t, (o, t) ∈ l ↔ (o, t) ∈ m) : l = m := by
  have nodup {l : List (Origin × Target)} (hl : l.Pairwise fun a b => a.1.Before b.1) : l.Nodup := by
    refine hl.imp fun {a b} h he => ?_
    exact b.1.before_irrefl (he ▸ h)
  refine List.Perm.eq_of_pairwise (fun a b _ _ h h' => absurd h' (Origin.before_asymm h)) hl hm ?_
  exact (List.perm_ext_iff_of_nodup (nodup hl) (nodup hm)).mpr fun f => h f.1 f.2

namespace Spec

variable {s : Spec} {i : Inventory} {k : Key} {p : Pod} {x : Service} {o : Origin} {t : Target}

def Wants (s : Spec) (info : Meta) : Prop :=
  s.selector.selects info.labels = true ∧ info.annotations.get? (s.annotationPrefix ++ "/scrape") = some "true"

def describe (s : Spec) (info : Meta) (ip : String) (reference : Reference) : Target :=
  { Target.ofAnnotations info.annotations s.annotationPrefix with
    ip, reference, labels := info.labels, annotations := info.annotations }

inductive Yields (s : Spec) (i : Inventory) : Origin → Target → Prop
  | pod {k : Key} {p : Pod} {ip : String} (on : s.resources.pods = true) (hp : i.pods.get? k = some p)
      (hw : s.Wants p.info) (hip : p.ip = some ip) (hne : ip ≠ "") :
      Yields s i (.pod k) (s.describe p.info ip ⟨"Pod", p.info.namespace, p.info.name, p.info.version⟩)
  | service {k : Key} {x : Service} (on : s.resources.services = true) (hx : i.services.get? k = some x)
      (hw : s.Wants x.info) (hne : x.clusterIp ≠ "") (hh : x.clusterIp ≠ "None") :
      Yields s i (.service k)
        (s.describe x.info x.clusterIp ⟨"Service", x.info.namespace, x.info.name, x.info.version⟩)
  | address {k : Key} {x : Service} {e : Endpoints} {u : Subset} {a : Address} {m n : Nat}
      (on : s.resources.services = true) (hx : i.services.get? k = some x) (hw : s.Wants x.info)
      (hh : x.clusterIp = "None") (he : s.resources.endpoints = true) (hk : i.endpoints.get? k = some e)
      (hu : e.subsets[m]? = some u) (ha : u.ready[n]? = some a) :
      Yields s i (.address k m n)
        (s.describe x.info a.ip (a.reference.getD
          ⟨"Endpoints", e.info.namespace, e.info.name, e.info.version⟩))

/-! The origins of a scan as a list -/

def podFound (s : Spec) (e : Key × Pod) : List (Origin × Target) :=
  if s.selector.selects e.2.info.labels then (s.podTarget? e.2).toList.map (Prod.mk (.pod e.1)) else []

def addressesFound (k : Key) (base : Target) (e : Endpoints) : List (Origin × Target) :=
  e.subsets.zipIdx.flatMap fun u => u.1.ready.zipIdx.map fun a => (.address k u.2 a.2, addressTarget base e a.1)

def serviceFound (s : Spec) (i : Inventory) (e : Key × Service) : List (Origin × Target) :=
  if !s.selector.selects e.2.info.labels || !(s.serviceBase e.2).scrape then []
  else if e.2.isHeadless then
    match i.endpoints.get? e.1 with
    | some found => if s.resources.endpoints then addressesFound e.1 (s.serviceBase e.2) found else []
    | none => []
  else if e.2.clusterIp = "" then []
  else [(.service e.1, { s.serviceBase e.2 with ip := e.2.clusterIp, reference := e.2.reference })]

def found (s : Spec) (i : Inventory) : List (Origin × Target) :=
  (if s.resources.pods then i.pods.entries.flatMap s.podFound else []) ++
    (if s.resources.services then i.services.entries.flatMap (s.serviceFound i) else [])

theorem slash_append (annotationPrefix name : String) :
    annotationPrefix ++ ("/" ++ name) = annotationPrefix ++ "/" ++ name := (String.append_assoc ..).symm

theorem scrape_iff {annotations : Dict String String} {annotationPrefix : String} :
    (Target.ofAnnotations annotations annotationPrefix).scrape = true ↔
      annotations.get? (annotationPrefix ++ "/scrape") = some "true" := by
  have key := slash_append annotationPrefix "scrape"
  simp only [Target.ofAnnotations, ← key, decide_eq_true_eq]
  rfl

theorem describe_obeys {info : Meta} (h : s.Wants info) (ip : String) (reference : Reference) :
    (s.describe info ip reference).Obeys s.annotationPrefix where
  asked := h.2
  scrape := scrape_iff.mpr h.2
  scheme := congrArg (fun key => (info.annotations.get? key).getD "http") (slash_append _ "scheme").symm
  port := congrArg (fun key => (info.annotations.get? key).getD "9090") (slash_append _ "port").symm
  path := congrArg (fun key => (info.annotations.get? key).getD "/metrics") (slash_append _ "path").symm
  metadata := by
    have key := slash_append s.annotationPrefix "includeMetadata"
    simp only [describe, Target.ofAnnotations, ← key, decide_eq_true_eq]
    rfl
  labels := congrArg (fun key => ((info.annotations.get? key).map Text.commaList).getD [])
    (slash_append _ "includeLabels").symm
  annotations := congrArg (fun key => ((info.annotations.get? key).map Text.commaList).getD [])
    (slash_append _ "includeAnnotations").symm

/-! What is in the list -/

theorem podTarget?_eq_some :
    s.podTarget? p = some t ↔ (Target.ofAnnotations p.info.annotations s.annotationPrefix).scrape = true ∧
    ∃ ip, p.ip = some ip ∧ ip ≠ "" ∧
    t = s.describe p.info ip ⟨"Pod", p.info.namespace, p.info.name, p.info.version⟩ := by
  rw [podTarget?]
  cases p.ip with
  | none => simp
  | some ip =>
    dsimp only
    split
    · rename_i h
      rw [Option.some_inj]
      constructor
      · rintro rfl
        exact ⟨h.1, ip, rfl, h.2, rfl⟩
      · rintro ⟨-, ip', hip, -, rfl⟩
        obtain rfl := Option.some.inj hip
        rfl
    · rename_i h
      refine ⟨fun ht => by simp at ht, ?_⟩
      rintro ⟨hs, ip', hip, hne, -⟩
      obtain rfl := Option.some.inj hip
      exact absurd ⟨hs, hne⟩ h

theorem mem_podFound : (o, t) ∈ s.podFound (k, p) ↔ o = .pod k ∧ s.Wants p.info ∧
    ∃ ip, p.ip = some ip ∧ ip ≠ "" ∧
      t = s.describe p.info ip ⟨"Pod", p.info.namespace, p.info.name, p.info.version⟩ := by
  rw [podFound, Wants, ← scrape_iff, and_assoc, ← podTarget?_eq_some]
  cases s.selector.selects p.info.labels with
  | false => simp
  | true => cases s.podTarget? p <;> simp [eq_comm]

theorem mem_addressesFound {base : Target} {e : Endpoints} :
    (o, t) ∈ addressesFound k base e ↔ ∃ m n u a, o = .address k m n ∧ e.subsets[m]? = some u ∧
      u.ready[n]? = some a ∧ t = addressTarget base e a := by
  simp only [addressesFound, List.mem_flatMap, List.mem_map, List.mem_zipIdx_iff_getElem?, Prod.mk.injEq]
  constructor
  · rintro ⟨⟨u, m⟩, hu, ⟨a, n⟩, ha, rfl, rfl⟩
    exact ⟨m, n, u, a, rfl, hu, ha, rfl⟩
  · rintro ⟨m, n, u, a, rfl, hu, ha, rfl⟩
    exact ⟨(u, m), hu, (a, n), ha, rfl, rfl⟩

theorem mem_serviceFound : (o, t) ∈ s.serviceFound i (k, x) ↔ s.Wants x.info ∧
    (o = .service k ∧ x.clusterIp ≠ "" ∧ x.clusterIp ≠ "None" ∧
        t = s.describe x.info x.clusterIp ⟨"Service", x.info.namespace, x.info.name, x.info.version⟩ ∨
      x.clusterIp = "None" ∧ s.resources.endpoints = true ∧ ∃ e, i.endpoints.get? k = some e ∧
        (o, t) ∈ addressesFound k (s.serviceBase x) e) := by
  rw [serviceFound, Wants, ← scrape_iff]
  change _ ∈ (if !s.selector.selects x.info.labels || !(s.serviceBase x).scrape then _ else _) ↔
    (_ ∧ (s.serviceBase x).scrape = true) ∧ _
  cases s.selector.selects x.info.labels with
  | false => simp
  | true =>
    cases (s.serviceBase x).scrape with
    | false => simp
    | true =>
      by_cases hh : x.clusterIp = "None"
      · cases i.endpoints.get? k <;> cases s.resources.endpoints <;> simp [Service.isHeadless, hh]
      · by_cases hne : x.clusterIp = ""
        · simp [Service.isHeadless, hne]
        · simp [Service.isHeadless, hh, hne, describe, serviceBase, Service.reference, Meta.reference]

theorem mem_found : (o, t) ∈ s.found i ↔ s.Yields i o t := by
  have key {α : Type} {d : Dict Key α} {f : Key × α → List (Origin × Target)} :
      (o, t) ∈ d.entries.flatMap f ↔ ∃ k a, d.get? k = some a ∧ (o, t) ∈ f (k, a) := by
    simp only [List.mem_flatMap, Prod.exists, Dict.get?_eq_some]
  have kind {b : Bool} {l : List (Origin × Target)} :
      (o, t) ∈ (if b then l else []) ↔ b = true ∧ (o, t) ∈ l := by
    cases b <;> simp
  rw [found, List.mem_append, kind, kind, key, key]
  constructor
  · rintro (⟨on, k, p, hp, hm⟩ | ⟨on, k, x, hx, hm⟩)
    · obtain ⟨rfl, hw, ip, hip, hne, rfl⟩ := mem_podFound.mp hm
      exact .pod on hp hw hip hne
    · obtain ⟨hw, ⟨rfl, hne, hh, rfl⟩ | ⟨hh, he, e, hk, hm⟩⟩ := mem_serviceFound.mp hm
      · exact .service on hx hw hne hh
      · obtain ⟨m, n, u, a, rfl, hu, ha, rfl⟩ := mem_addressesFound.mp hm
        exact .address on hx hw hh he hk hu ha
  · intro h
    cases h with
    | pod on hp hw hip hne => exact .inl ⟨on, _, _, hp, mem_podFound.mpr ⟨rfl, hw, _, hip, hne, rfl⟩⟩
    | service on hx hw hne hh =>
      exact .inr ⟨on, _, _, hx, mem_serviceFound.mpr ⟨hw, .inl ⟨rfl, hne, hh, rfl⟩⟩⟩
    | address on hx hw hh he hk hu ha =>
      refine .inr ⟨on, _, _, hx, mem_serviceFound.mpr ⟨hw, .inr ⟨hh, he, _, hk, ?_⟩⟩⟩
      exact mem_addressesFound.mpr ⟨_, _, _, _, rfl, hu, ha, rfl⟩

/-! The order of the list -/

theorem zipIdx_ascending {α : Type} (l : List α) (start : Nat) :
    (l.zipIdx start).Pairwise fun a b => a.2 < b.2 := by
  induction l generalizing start with
  | nil => simp
  | cons a rest ih =>
    rw [List.zipIdx_cons, List.pairwise_cons]
    exact ⟨fun b hb => List.le_snd_of_mem_zipIdx hb, ih (start + 1)⟩

theorem addressesFound_ordered (k : Key) (base : Target) (e : Endpoints) :
    (addressesFound k base e).Pairwise fun a b => a.1.Before b.1 := by
  rw [addressesFound, List.pairwise_flatMap]
  refine ⟨fun u _ => ?_, (zipIdx_ascending e.subsets 0).imp ?_⟩
  · rw [List.pairwise_map]
    exact (zipIdx_ascending u.1.ready 0).imp fun h => .inr ⟨rfl, .inr ⟨rfl, h⟩⟩
  · intro u v h a ha b hb
    obtain ⟨a', -, rfl⟩ := List.mem_map.mp ha
    obtain ⟨b', -, rfl⟩ := List.mem_map.mp hb
    exact .inr ⟨rfl, .inl h⟩

theorem podFound_ordered (s : Spec) (e : Key × Pod) : (s.podFound e).Pairwise fun a b => a.1.Before b.1 := by
  rw [podFound]
  split
  · cases s.podTarget? e.2 <;> simp
  · exact .nil

theorem serviceFound_ordered (s : Spec) (i : Inventory) (e : Key × Service) :
    (s.serviceFound i e).Pairwise fun a b => a.1.Before b.1 := by
  rw [serviceFound]
  split
  · exact .nil
  · split
    · split
      · split
        · exact addressesFound_ordered _ _ _
        · exact .nil
      · exact .nil
    · split
      · exact .nil
      · exact List.pairwise_singleton _ _

theorem serviceFound_key {f : Origin × Target} (h : f ∈ s.serviceFound i (k, x)) :
    f.1 = .service k ∨ ∃ m n, f.1 = .address k m n := by
  obtain ⟨-, ⟨ho, -⟩ | ⟨-, -, e, -, hm⟩⟩ := mem_serviceFound.mp h
  · exact .inl ho
  · obtain ⟨m, n, -, -, ho, -⟩ := mem_addressesFound.mp hm
    exact .inr ⟨m, n, ho⟩

theorem found_ordered (s : Spec) (i : Inventory) : (s.found i).Pairwise fun a b => a.1.Before b.1 := by
  have off {b : Bool} {l : List (Origin × Target)} (h : l.Pairwise fun a b => a.1.Before b.1) :
      (if b then l else []).Pairwise fun a b => a.1.Before b.1 := by
    cases b
    · exact .nil
    · exact h
  rw [found, List.pairwise_append]
  refine ⟨off ?_, off ?_, ?_⟩
  · rw [List.pairwise_flatMap]
    refine ⟨fun e _ => podFound_ordered s e, i.pods.sorted.imp ?_⟩
    intro e e' h a ha b hb
    rw [(mem_podFound.mp ha).1, (mem_podFound.mp hb).1]
    exact h
  · rw [List.pairwise_flatMap]
    refine ⟨fun e _ => serviceFound_ordered s i e, i.services.sorted.imp ?_⟩
    intro e e' h a ha b hb
    rcases serviceFound_key ha with ho | ⟨m, n, ho⟩ <;>
      rcases serviceFound_key hb with ho' | ⟨m', n', ho'⟩ <;>
      rw [ho, ho']
    · exact h
    · exact h
    · exact h
    · exact .inl h
  · intro a ha b hb
    obtain ⟨-, e, -, ha⟩ : s.resources.pods = true ∧ ∃ e ∈ i.pods.entries, a ∈ s.podFound e := by
      cases hr : s.resources.pods <;> simp_all
    obtain ⟨-, e', -, hb⟩ : s.resources.services = true ∧
      ∃ e ∈ i.services.entries, b ∈ s.serviceFound i e := by
      cases hr : s.resources.services <;> simp_all
    rw [(mem_podFound.mp ha).1]
    rcases serviceFound_key hb with ho | ⟨m, n, ho⟩ <;> rw [ho] <;> trivial

/-! The list is the scan -/

theorem addressesFound_targets (k : Key) (base : Target) (e : Endpoints) :
    (addressesFound k base e).map (·.2) = e.ready.map (addressTarget base e) := by
  have subset (u : Subset) (m : Nat) :
      (u.ready.zipIdx.map fun a => (Origin.address k m a.2, addressTarget base e a.1)).map (·.2) =
      u.ready.map (addressTarget base e) := by
    rw [List.map_map]
    calc u.ready.zipIdx.map (addressTarget base e ∘ Prod.fst)
      _ = (u.ready.zipIdx.map Prod.fst).map (addressTarget base e) := List.map_map.symm
      _ = u.ready.map (addressTarget base e) := by rw [List.zipIdx_map_fst]
  calc (addressesFound k base e).map (·.2)
    _ = e.subsets.zipIdx.flatMap fun u => u.1.ready.map (addressTarget base e) := by
      simp only [addressesFound, List.map_flatMap, subset]
    _ = (e.subsets.zipIdx.map Prod.fst).flatMap fun u => u.ready.map (addressTarget base e) := by
      rw [List.flatMap_map]
    _ = e.ready.map (addressTarget base e) := by rw [List.zipIdx_map_fst, Endpoints.ready, List.map_flatMap]

theorem podFound_targets (s : Spec) (e : Key × Pod) : (s.podFound e).map (·.2) =
    if s.selector.selects e.2.info.labels then (s.podTarget? e.2).toList else [] := by
  rw [podFound]
  split
  · cases s.podTarget? e.2 <;> rfl
  · rfl

theorem serviceFound_targets (hk : x.info.key = k) : (s.serviceFound i (k, x)).map (·.2) =
    if s.selector.selects x.info.labels then s.serviceTargets i .none x else [] := by
  subst hk
  rw [serviceFound, serviceTargets, Inventory.getEndpoints]
  dsimp only
  generalize s.serviceBase x = base
  cases s.selector.selects x.info.labels with
  | false => rfl
  | true =>
    cases hb : base.scrape with
    | false => rfl
    | true =>
      cases x.isHeadless with
      | false => by_cases hne : x.clusterIp = "" <;> simp [hne]
      | true =>
        cases i.endpoints.get? x.info.key with
        | none => rfl
        | some e =>
          cases hr : s.resources.endpoints <;>
            simp [hr, headlessTargets, Cluster.answer, Cluster.Outage.none, addressesFound_targets]

theorem values_filter_flatMap {α β : Type} (d : Dict Key α) (selects : α → Bool) (f : α → List β) :
    (d.values.filter selects).flatMap f = d.entries.flatMap fun e => if selects e.2 then f e.2 else [] := by
  rw [Dict.values]
  induction d.entries with
  | nil => rfl
  | cons e rest ih =>
    rw [List.map_cons, List.filter_cons, List.flatMap_cons, ← ih]
    cases selects e.2 <;> rfl

theorem podTargets_eq (s : Spec) (i : Inventory) :
    s.podTargets i .none = (i.pods.entries.flatMap s.podFound).map (·.2) := by
  rw [List.map_flatMap]
  simp only [podFound_targets]
  rw [← values_filter_flatMap i.pods (fun p => s.selector.selects p.info.labels)
    fun p => (s.podTarget? p).toList, ← List.filterMap_eq_flatMap_toList]
  rfl

theorem servicesTargets_eq (s : Spec) (hi : i.Keyed) :
    s.servicesTargets i .none = (i.services.entries.flatMap (s.serviceFound i)).map (·.2) := by
  rw [List.map_flatMap]
  have own (e : Key × Service) (he : e ∈ i.services.entries) : (s.serviceFound i e).map (·.2) =
      if s.selector.selects e.2.info.labels then s.serviceTargets i .none e.2 else [] :=
    serviceFound_targets (hi.services e.1 e.2 (Dict.get?_eq_some.mpr he))
  rw [List.flatMap_congr own,
    ← values_filter_flatMap i.services (fun x => s.selector.selects x.info.labels) (s.serviceTargets i .none)]
  rfl

theorem scan_eq_found (s : Spec) (hi : i.Keyed) : s.scan i .none = (s.found i).map (·.2) := by
  rw [scan, found, podTargets_eq, servicesTargets_eq s hi, List.map_append]
  cases s.resources.pods <;> cases s.resources.services <;> rfl

theorem Yields.obeys (h : s.Yields i o t) : t.Obeys s.annotationPrefix := by
  cases h with
  | pod _ _ hw _ _ | service _ _ hw _ _ | address _ _ hw _ _ _ _ _ => exact describe_obeys hw _ _

/-- A scan lists the targets of exactly those origins that yield one, each origin once and in order. -/
theorem scan_lists_origins (s : Spec) (hi : i.Stocked) :
    i.Keyed ∧ ∃ found : List (Origin × Target), s.scan i .none = found.map (·.2) ∧
      found.Pairwise (fun a b => a.1.Before b.1) ∧ (found.map (·.1)).Nodup ∧
      (∀ o t, (o, t) ∈ found ↔ s.Yields i o t) ∧ ∀ t ∈ s.scan i .none, t.Obeys s.annotationPrefix := by
  have ordered := found_ordered s i
  refine ⟨hi.keyed, s.found i, scan_eq_found s hi.keyed, ordered, ?_, fun o t => mem_found, ?_⟩
  · rw [List.nodup_iff_pairwise_ne, List.pairwise_map]
    refine ordered.imp fun {a b} h he => ?_
    exact b.1.before_irrefl (he ▸ h)
  · intro t ht
    rw [scan_eq_found s hi.keyed] at ht
    obtain ⟨⟨o, t'⟩, hm, rfl⟩ := List.mem_map.mp ht
    exact (mem_found.mp hm).obeys

def shopInfo (name : String) : Meta :=
  ⟨"shop", name, "1", .empty, Dict.ofList [("prometheus.io/scrape", "true")]⟩

def shop : Cluster.Declared where
  pods := [⟨shopInfo "web-2", none⟩, ⟨shopInfo "web-1", some "10.0.0.1"⟩]
  services := [⟨shopInfo "store", "10.0.1.1"⟩, ⟨shopInfo "quorum", "None"⟩]
  endpoints := [⟨shopInfo "quorum",
    [⟨[⟨"10.0.0.2", none⟩], [⟨"10.0.0.3", none⟩]⟩, ⟨[⟨"10.0.0.4", none⟩], []⟩]⟩]

theorem scan_shop : (Inventory.ofDeclared shop).Stocked ∧
    (Spec.standard.scan (.ofDeclared shop) .none).map (·.ip) =
      ["10.0.0.1", "10.0.0.2", "10.0.0.4", "10.0.1.1"] ∧
    ∃ found : List (Origin × Target), Spec.standard.scan (.ofDeclared shop) .none = found.map (·.2) ∧
      ∀ o t, (o, t) ∈ found ↔ Spec.standard.Yields (.ofDeclared shop) o t := by
  have stocked : (Inventory.ofDeclared shop).Stocked := .declared shop
  obtain ⟨-, found, hs, -, -, hf, -⟩ := scan_lists_origins .standard stocked
  exact ⟨stocked, by decide +kernel, found, hs, hf⟩

end Spec

end Discovery

end ScrapeRelay

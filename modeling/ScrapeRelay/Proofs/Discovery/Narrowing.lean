import ScrapeRelay.Discovery.Scan
import ScrapeRelay.Proofs.Dict
import Mathlib.Data.List.Basic
import Mathlib.Data.List.Flatten

/-!
Selectors are conjunctions, so that a selector with more in it selects less and a scan with it finds no new
targets.
-/

namespace ScrapeRelay

namespace Cluster

variable {labels : Dict String String} {k v : String}

namespace Requirement

variable {values : List String}

theorem holds_one : holds ⟨k, .isIn, [v]⟩ labels = true ↔ labels.get? k = some v := by
  cases h : labels.get? k <;> simp [holds, h]

theorem holds_notIn : holds ⟨k, .notIn, values⟩ labels = !holds ⟨k, .isIn, values⟩ labels := rfl

theorem holds_absent : holds ⟨k, .absent, values⟩ labels = !holds ⟨k, .present, values⟩ labels := by
  cases h : labels.get? k <;> simp [holds, h]

end Requirement

namespace Selector

variable {s a b : Selector}

theorem selects_iff : s.selects labels = true ↔
    (∀ k v, s.labels.get? k = some v → labels.get? k = some v) ∧
    ∀ q ∈ s.requirements, q.holds labels = true := by
  simp only [selects, Bool.and_eq_true, List.all_eq_true, decide_eq_true_eq, Dict.get?_eq_some (d := s.labels)]
  exact and_congr_left' ⟨fun h k v hk => h (k, v) hk, fun h e he => h e.1 e.2 he⟩

def Agrees (a b : Selector) : Prop := ∀ k v w, a.labels.get? k = some v → b.labels.get? k = some w → v = w

structure IsUnion (s a b : Selector) : Prop where
  labels : ∀ k v, s.labels.get? k = some v ↔ a.labels.get? k = some v ∨ b.labels.get? k = some v
  requirements : s.requirements = a.requirements ++ b.requirements

def extended (a b : Selector) : Selector :=
  ⟨b.labels.toList.foldl (fun d e => d.insert e.1 e.2) a.labels, a.requirements ++ b.requirements⟩

theorem extended_labels (a b : Selector) (k : String) :
    (a.extended b).labels.get? k = (b.labels.get? k).or (a.labels.get? k) := by
  have keys : (b.labels.toList.map (·.1)).Nodup := List.pairwise_map.mpr (b.labels.sorted.imp fun h => by
    rintro heq
    simp [heq] at h)
  rw [extended, Dict.get?_foldl_insert keys, ← Dict.get?_ofList keys, Dict.ofList_toList]

theorem extended_isUnion (h : a.Agrees b) : (a.extended b).IsUnion a b where
  labels k v := by
    rw [extended_labels, Option.or_eq_some_iff]
    constructor
    · exact fun found => found.symm.imp And.right id
    · rintro (ha | hb)
      · cases hb : b.labels.get? k with
        | none => exact .inr ⟨rfl, ha⟩
        | some w => exact .inl (congrArg some (h k v w ha hb).symm)
      · exact .inl hb
  requirements := rfl

theorem IsUnion.selects (h : s.IsUnion a b) (labels : Dict String String) :
    s.selects labels = (a.selects labels && b.selects labels) := by
  rw [Bool.eq_iff_iff, Bool.and_eq_true, selects_iff, selects_iff, selects_iff, h.requirements,
    List.forall_mem_append]
  simp only [h.labels, or_imp, forall_and]
  exact and_and_and_comm

theorem selects_congr {asked : Dict String String} {l l' : List Requirement} (h : ∀ q, q ∈ l ↔ q ∈ l') :
    selects ⟨asked, l⟩ labels = selects ⟨asked, l'⟩ labels := by
  rw [Bool.eq_iff_iff, selects_iff, selects_iff]
  simp only [h]

theorem selects_erase (h : s.labels.get? k = some v) :
    s.selects labels = selects ⟨s.labels.erase k, ⟨k, .isIn, [v]⟩ :: s.requirements⟩ labels := by
  rw [Bool.eq_iff_iff, selects_iff, selects_iff, List.forall_mem_cons, Requirement.holds_one, ← and_assoc]
  refine and_congr_left' ⟨fun hs => ⟨fun k' w hw => hs k' w (Dict.of_get?_erase hw).2, hs k v h⟩, ?_⟩
  rintro ⟨others, this⟩ k' w hw
  by_cases hk : k' = k
  · subst hk
    rwa [← Option.some.inj (h.symm.trans hw)]
  · exact others k' w (by rwa [Dict.get?_erase, if_neg hk])

end Selector

end Cluster

namespace Discovery.Spec

open Cluster (Inventory Outage Requirement Selector)

variable {s : Spec} {i : Inventory} {o : Outage} {narrow : Selector}

theorem podTargets_narrowed (h : ∀ labels, narrow.selects labels = true → s.selector.selects labels = true) :
    ({ s with selector := narrow }.podTargets i o).Sublist (s.podTargets i o) := by
  unfold podTargets Inventory.listPods Cluster.answer
  cases o.pods with
  | true => exact .slnil
  | false => exact (List.monotone_filter_right _ fun p : Cluster.Pod => h p.info.labels).filterMap _

theorem servicesTargets_narrowed
    (h : ∀ labels, narrow.selects labels = true → s.selector.selects labels = true) :
    ({ s with selector := narrow }.servicesTargets i o).Sublist (s.servicesTargets i o) := by
  unfold servicesTargets Inventory.listServices Cluster.answer
  cases o.services with
  | true => exact .slnil
  | false => exact (List.monotone_filter_right _ fun x : Cluster.Service => h x.info.labels).flatMap _

theorem scan_narrowed (h : ∀ labels, narrow.selects labels = true → s.selector.selects labels = true) :
    ({ s with selector := narrow }.scan i o).Sublist (s.scan i o) := by
  unfold scan
  apply List.Sublist.append
  · split
    · exact podTargets_narrowed h
    · exact .slnil
  · split
    · exact servicesTargets_narrowed h
    · exact .slnil

/-- A selector with all that two others ask for selects what both select, whatever the order and the number of
its requirements; a label is a requirement with one value, and the other operators are negations. Whatever a
selector is extended with, a scan lists some of the targets that it listed before, in their order. -/
theorem selectors_narrow :
    (∀ (s a b : Selector) labels, s.IsUnion a b →
      s.selects labels = (a.selects labels && b.selects labels)) ∧
    (∀ asked l l' labels, (∀ q, q ∈ l ↔ q ∈ l') →
      Selector.selects ⟨asked, l⟩ labels = Selector.selects ⟨asked, l'⟩ labels) ∧
    (∀ (s : Selector) k v labels, s.labels.get? k = some v →
      s.selects labels = Selector.selects ⟨s.labels.erase k, ⟨k, .isIn, [v]⟩ :: s.requirements⟩ labels) ∧
    (∀ k values labels,
      Requirement.holds ⟨k, .notIn, values⟩ labels = !Requirement.holds ⟨k, .isIn, values⟩ labels ∧
      Requirement.holds ⟨k, .absent, values⟩ labels = !Requirement.holds ⟨k, .present, values⟩ labels) ∧
    ∀ (s : Spec) (b : Selector) i o, s.selector.Agrees b → (s.selector.extended b).IsUnion s.selector b ∧
      ({ s with selector := s.selector.extended b }.scan i o).Sublist (s.scan i o) := by
  refine ⟨fun s a b labels h => h.selects labels, fun _ _ _ _ h => Selector.selects_congr h,
    fun s k v labels h => Selector.selects_erase h,
    fun k values labels => ⟨Requirement.holds_notIn, Requirement.holds_absent⟩, fun s b i o h => ?_⟩
  have union := Selector.extended_isUnion h
  refine ⟨union, scan_narrowed fun labels hl => ?_⟩
  rw [union.selects, Bool.and_eq_true] at hl
  exact hl.1

def pod (name ip : String) (labels : List (String × String)) : Cluster.Pod :=
  ⟨⟨"shop", name, "1", .ofList labels, .ofList [("prometheus.io/scrape", "true")]⟩, some ip⟩

def fleet : Cluster.Declared where
  pods := [pod "web-1" "10.0.0.1" [("app", "shop")], pod "web-2" "10.0.0.2" [("app", "shop"), ("canary", "yes")]]
  services := []
  endpoints := []

def shops : Selector := ⟨.ofList [("app", "shop")], []⟩

def calmShops : Selector := ⟨.ofList [("app", "shop")], [⟨"canary", .absent, []⟩]⟩

def inFleet (selector : Selector) : List Target := scan { standard with selector } (.ofDeclared fleet) .none

theorem selectors_narrow_fleet : shops.Agrees calmShops ∧ shops.labels.get? "app" = some "shop" ∧
    shops.selects (.ofList [("app", "mail")]) =
      Selector.selects ⟨shops.labels.erase "app", [⟨"app", .isIn, ["shop"]⟩]⟩
        (.ofList [("app", "mail")]) ∧
    (inFleet shops).map (·.ip) = ["10.0.0.1", "10.0.0.2"] ∧
    (inFleet (shops.extended calmShops)).map (·.ip) = ["10.0.0.1"] ∧
    (inFleet (shops.extended calmShops)).Sublist (inFleet shops) := by
  obtain ⟨-, -, pair, -, scans⟩ := selectors_narrow
  have app : shops.labels.get? "app" = some "shop" := by decide +kernel
  have agree : shops.Agrees calmShops := fun k v w hv hw => Option.some.inj (hv.symm.trans hw)
  exact ⟨agree, app, pair shops "app" "shop" _ app, by decide +kernel, by decide +kernel,
    (scans { standard with selector := shops } calmShops _ _ agree).2⟩

end Discovery.Spec

end ScrapeRelay

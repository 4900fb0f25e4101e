import ScrapeRelay.Proofs.Discovery.Origins

/-!
Calls to the cluster that fail. A scan then gives what it would give if the kind that could not be listed were
switched off and the endpoints that could not be looked up were not there. The targets of everything else stay,
in their order.
-/

namespace ScrapeRelay

namespace Cluster.Inventory

def without (i : Inventory) (o : Outage) : Inventory :=
  { i with endpoints := i.endpoints.filter fun k _ => !o.endpoints k }

variable {i : Inventory} {o : Outage}

theorem get?_without (k : Key) :
    (i.without o).endpoints.get? k = if o.endpoints k then none else i.endpoints.get? k := by
  rw [without, Dict.get?_filter]
  cases o.endpoints k <;> cases i.endpoints.get? k <;> rfl

theorem Keyed.without (h : Keyed i) (o : Outage) : Keyed (i.without o) where
  pods := h.pods
  services := h.services
  endpoints k e he := by
    rw [get?_without] at he
    split at he
    · cases he
    · exact h.endpoints k e he

end Cluster.Inventory

namespace Discovery

open Cluster (Inventory Outage Service)

def Origin.lost (o : Outage) : Origin → Bool
  | pod _ => o.pods
  | service _ => o.services
  | address k _ _ => o.services || o.endpoints k

namespace Spec

def without (s : Spec) (o : Outage) : Spec :=
  { s with resources :=
    { s.resources with
      pods := s.resources.pods && !o.pods
      services := s.resources.services && !o.services } }

variable {s : Spec} {i : Inventory} {o : Outage} {x : Origin} {t : Target}

theorem podTargets_outage (s : Spec) (i : Inventory) (ho : o.pods = false) :
    s.podTargets i o = (s.without o).podTargets (i.without o) .none := by
  rw [podTargets, Inventory.listPods, ho]
  rfl

theorem podTargets_lost (s : Spec) (i : Inventory) (ho : o.pods = true) : s.podTargets i o = [] := by
  rw [podTargets, Inventory.listPods, ho]
  rfl

theorem serviceTargets_outage (s : Spec) (i : Inventory) (o : Outage) (v : Service) :
    s.serviceTargets i o v = (s.without o).serviceTargets (i.without o) .none v := by
  have found : s.headlessTargets (s.serviceBase v) (i.getEndpoints o v.info.key) =
      (s.without o).headlessTargets (s.serviceBase v) ((i.without o).getEndpoints .none v.info.key) := by
    rw [Inventory.getEndpoints, Inventory.getEndpoints, Inventory.get?_without]
    cases o.endpoints v.info.key <;> rfl
  rw [serviceTargets, found]
  rfl

theorem servicesTargets_outage (s : Spec) (i : Inventory) (ho : o.services = false) :
    s.servicesTargets i o = (s.without o).servicesTargets (i.without o) .none := by
  have each : s.serviceTargets i o = (s.without o).serviceTargets (i.without o) .none :=
    funext (serviceTargets_outage s i o)
  rw [servicesTargets, Inventory.listServices, ho, each]
  rfl

theorem servicesTargets_lost (s : Spec) (i : Inventory) (ho : o.services = true) : s.servicesTargets i o = [] := by
  rw [servicesTargets, Inventory.listServices, ho]
  rfl

theorem scan_outage (s : Spec) (i : Inventory) (o : Outage) :
    s.scan i o = (s.without o).scan (i.without o) .none := by
  have pods : (if s.resources.pods then s.podTargets i o else []) =
      if (s.without o).resources.pods then (s.without o).podTargets (i.without o) .none else [] := by
    cases ho : o.pods with
    | false => simp [podTargets_outage s i ho, without, ho]
    | true => simp [podTargets_lost s i ho, without, ho]
  have services : (if s.resources.services then s.servicesTargets i o else []) =
      if (s.without o).resources.services then (s.without o).servicesTargets (i.without o) .none else [] := by
    cases ho : o.services with
    | false => simp [servicesTargets_outage s i ho, without, ho]
    | true => simp [servicesTargets_lost s i ho, without, ho]
  rw [scan, scan, pods, services]

theorem yields_without : (s.without o).Yields (i.without o) x t ↔ s.Yields i x t ∧ x.lost o = false := by
  constructor
  · intro h
    cases h with
    | pod on hp hw hip hne =>
      obtain ⟨on, up⟩ : s.resources.pods = true ∧ o.pods = false := by simpa [without] using on
      exact ⟨.pod on hp hw hip hne, up⟩
    | service on hx hw hne hh =>
      obtain ⟨on, up⟩ : s.resources.services = true ∧ o.services = false := by simpa [without] using on
      exact ⟨.service on hx hw hne hh, up⟩
    | address on hx hw hh he hk hu ha =>
      obtain ⟨on, up⟩ : s.resources.services = true ∧ o.services = false := by simpa [without] using on
      rw [Inventory.get?_without] at hk
      split at hk
      · cases hk
      · rename_i found
        exact ⟨.address on hx hw hh he hk hu ha, by simp [Origin.lost, up, found]⟩
  · rintro ⟨h, hl⟩
    cases h with
    | pod on hp hw hip hne =>
      have up : o.pods = false := hl
      exact .pod (by simp [without, on, up]) hp hw hip hne
    | service on hx hw hne hh =>
      have up : o.services = false := hl
      exact .service (by simp [without, on, up]) hx hw hne hh
    | @address k v e u a m n on hx hw hh he hk hu ha =>
      obtain ⟨up, found⟩ : o.services = false ∧ o.endpoints k = false := by simpa [Origin.lost] using hl
      refine .address (by simp [without, on, up]) hx hw hh he ?_ hu ha
      rw [Inventory.get?_without, found]
      exact hk

theorem found_without (s : Spec) (i : Inventory) (o : Outage) :
    (s.without o).found (i.without o) = (s.found i).filter fun f => !f.1.lost o := by
  apply eq_of_ordered (found_ordered _ _) ((found_ordered s i).filter _)
  intro x t
  rw [mem_found, yields_without, List.mem_filter, mem_found, Bool.not_eq_true']

/-- What fails is as if it were switched off or not there. So of the targets that a scan lists without an outage
those with a lost origin drop out, and the others keep their order. -/
theorem scan_outages (s : Spec) (i : Inventory) (o : Outage) :
    s.scan i o = (s.without o).scan (i.without o) .none ∧
      (i.Keyed → ∃ found : List (Origin × Target), s.scan i .none = found.map (·.2) ∧
        (∀ x t, (x, t) ∈ found ↔ s.Yields i x t) ∧
        s.scan i o = (found.filter fun f => !f.1.lost o).map (·.2)) := by
  refine ⟨scan_outage s i o, fun hi => ⟨s.found i, scan_eq_found s hi, fun x t => mem_found, ?_⟩⟩
  rw [scan_outage, scan_eq_found _ (hi.without o), found_without]

def torn : Outage := ⟨true, false, fun k => k = ⟨"shop", "quorum"⟩, false⟩

theorem scan_torn : (Inventory.ofDeclared shop).Keyed ∧
    (Spec.standard.scan (.ofDeclared shop) torn).map (·.ip) = ["10.0.1.1"] ∧
    ∃ found : List (Origin × Target), Spec.standard.scan (.ofDeclared shop) .none = found.map (·.2) ∧
      Spec.standard.scan (.ofDeclared shop) torn = (found.filter fun f => !f.1.lost torn).map (·.2) := by
  have keyed : (Inventory.ofDeclared shop).Keyed := .ofDeclared shop
  obtain ⟨found, full, -, rest⟩ := (scan_outages .standard (.ofDeclared shop) torn).2 keyed
  exact ⟨keyed, by decide +kernel, found, full, rest⟩

end Spec

end Discovery

end ScrapeRelay

import ScrapeRelay.Proofs.Discovery.Origins

/-!
The addresses of the targets of a scan. A pod or a service without an address yields no target. A ready address
behind a headless service yields one whatever its text is, so a scan lists a target without an address exactly
if it comes to a ready address that is blank.
-/

namespace ScrapeRelay.Discovery.Spec

open Cluster (Inventory Outage Meta Pod Service Endpoints Address)

variable {s : Spec} {i : Inventory} {o : Outage} {t : Target} {x : Service} {e : Endpoints} {a : Address}

/-- A headless service that a scan replaces by the ready addresses of its endpoints. -/
structure Resolves (s : Spec) (i : Inventory) (o : Outage) (x : Service) (e : Endpoints) : Prop where
  services : s.resources.services = true
  endpoints : s.resources.endpoints = true
  answered : o.services = false ∧ o.endpoints x.info.key = false
  listed : x ∈ i.services.values
  wanted : s.Wants x.info
  headless : x.clusterIp = "None"
  found : i.endpoints.get? x.info.key = some e

theorem mem_podTargets : t ∈ s.podTargets i o ↔ o.pods = false ∧
    ∃ p ∈ i.pods.values, s.selector.selects p.info.labels = true ∧ s.podTarget? p = some t := by
  rw [podTargets, Inventory.listPods, Cluster.answer]
  cases o.pods <;> simp [and_assoc]

theorem mem_servicesTargets : t ∈ s.servicesTargets i o ↔ o.services = false ∧
    ∃ x ∈ i.services.values, s.selector.selects x.info.labels = true ∧ t ∈ s.serviceTargets i o x := by
  rw [servicesTargets, Inventory.listServices, Cluster.answer]
  cases o.services <;> simp [and_assoc]

theorem mem_headlessTargets {base : Target} {k : Key} : t ∈ s.headlessTargets base (i.getEndpoints o k) ↔
    s.resources.endpoints = true ∧ o.endpoints k = false ∧
      ∃ e, i.endpoints.get? k = some e ∧ ∃ a ∈ e.ready, addressTarget base e a = t := by
  simp only [headlessTargets, Inventory.getEndpoints, Cluster.answer]
  cases o.endpoints k with
  | true => simp
  | false => cases i.endpoints.get? k <;> simp

theorem mem_serviceTargets : t ∈ s.serviceTargets i o x ↔ (s.serviceBase x).scrape = true ∧
    (x.clusterIp = "None" ∧ t ∈ s.headlessTargets (s.serviceBase x) (i.getEndpoints o x.info.key) ∨
      x.clusterIp ≠ "None" ∧ x.clusterIp ≠ "" ∧
        t = { s.serviceBase x with ip := x.clusterIp, reference := x.reference }) := by
  rw [serviceTargets]
  cases hs : (s.serviceBase x).scrape with
  | false => simp [hs]
  | true =>
    by_cases hh : x.clusterIp = "None"
    · simp [Service.isHeadless, hs, hh]
    · by_cases hne : x.clusterIp = "" <;> simp [Service.isHeadless, hs, hh, hne]

theorem podTargets_addressed (h : t ∈ s.podTargets i o) : t.ip ≠ "" := by
  obtain ⟨-, p, -, -, hp⟩ := mem_podTargets.mp h
  obtain ⟨-, ip, -, hne, rfl⟩ := podTarget?_eq_some.mp hp
  exact hne

theorem servicesTargets_blank (on : s.resources.services = true) (h : t ∈ s.servicesTargets i o)
    (hb : t.ip = "") : ∃ x e, s.Resolves i o x e ∧ ∃ a ∈ e.ready, a.ip = "" := by
  obtain ⟨up, x, hx, hsel, ht⟩ := mem_servicesTargets.mp h
  obtain ⟨hscrape, ⟨hh, ht⟩ | ⟨-, hne, rfl⟩⟩ := mem_serviceTargets.mp ht
  · obtain ⟨hon, hup, e, he, a, ha, rfl⟩ := mem_headlessTargets.mp ht
    exact ⟨x, e, ⟨on, hon, ⟨up, hup⟩, hx, ⟨hsel, scrape_iff.mp hscrape⟩, hh, he⟩, a, ha, hb⟩
  · exact absurd hb hne

theorem Resolves.listed_address (h : s.Resolves i o x e) (ha : a ∈ e.ready) :
    addressTarget (s.serviceBase x) e a ∈ s.scan i o := by
  rw [scan, List.mem_append, if_pos h.services]
  right
  refine mem_servicesTargets.mpr ⟨h.answered.1, x, h.listed, h.wanted.1, mem_serviceTargets.mpr ?_⟩
  refine ⟨scrape_iff.mpr h.wanted.2, .inl ⟨h.headless, mem_headlessTargets.mpr ?_⟩⟩
  exact ⟨h.endpoints, h.answered.2, e, h.found, a, ha, rfl⟩

/-- Every target has an address if and only if every ready address that a headless service is replaced by has
one. -/
theorem scan_addressed (s : Spec) (i : Inventory) (o : Outage) :
    (∀ t ∈ s.scan i o, t.ip ≠ "") ↔ ∀ x e, s.Resolves i o x e → ∀ a ∈ e.ready, a.ip ≠ "" := by
  constructor
  · intro h x e hr a ha
    exact h _ (hr.listed_address ha)
  · intro h t ht hb
    rw [scan, List.mem_append] at ht
    rcases ht with ht | ht
    · split at ht
      · exact podTargets_addressed ht hb
      · simp at ht
    · split at ht
      · rename_i on
        obtain ⟨x, e, hr, a, ha, hblank⟩ := servicesTargets_blank on ht hb
        exact h x e hr a ha hblank
      · simp at ht

def unassigned : Cluster.Declared where
  pods := []
  services := [⟨shopInfo "quorum", "None"⟩]
  endpoints := [⟨shopInfo "quorum", [⟨[⟨"", none⟩, ⟨"10.0.0.2", none⟩], []⟩]⟩]

theorem blank_listed : (Spec.standard.scan (.ofDeclared unassigned) .none).map (·.url) =
    ["http://:9090/metrics", "http://10.0.0.2:9090/metrics"] ∧
    ∃ t ∈ Spec.standard.scan (.ofDeclared unassigned) .none, t.ip = "" := by
  decide +kernel

end ScrapeRelay.Discovery.Spec

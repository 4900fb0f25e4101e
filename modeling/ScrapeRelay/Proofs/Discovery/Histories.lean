import Mathlib.Data.List.Induction
import ScrapeRelay.Proofs.Discovery.Origins

/-!
Histories of an inventory: what it was declared with, then changes. A scan depends on what was written last to
each slot, so changes of different slots can change places. One change of a slot touches the targets of the
origins that the slot is part of, and nothing else.
-/

namespace ScrapeRelay

namespace Cluster

inductive Slot where
  | pod (k : Key)
  | service (k : Key)
  | endpoints (k : Key)
  | collector (k : Key)
  deriving DecidableEq

inductive Object where
  | pod (p : Pod)
  | service (x : Service)
  | endpoints (e : Endpoints)
  | collector (c : Collector.Spec)

inductive Change where
  | putPod (p : Pod)
  | putService (x : Service)
  | putEndpoints (e : Endpoints)
  | putCollector (k : Key) (c : Collector.Spec)
  | removePod (k : Key)
  | removeCollector (k : Key)

namespace Change

def slot : Change → Slot
  | putPod p => .pod p.info.key
  | putService x => .service x.info.key
  | putEndpoints e => .endpoints e.info.key
  | putCollector k _ => .collector k
  | removePod k => .pod k
  | removeCollector k => .collector k

def object? : Change → Option Object
  | putPod p => some (.pod p)
  | putService x => some (.service x)
  | putEndpoints e => some (.endpoints e)
  | putCollector _ c => some (.collector c)
  | removePod _ | removeCollector _ => none

def apply (i : Inventory) : Change → Inventory
  | putPod p => i.putPod p
  | putService x => i.putService x
  | putEndpoints e => i.putEndpoints e
  | putCollector k c => i.putCollector k c
  | removePod k => i.removePod k
  | removeCollector k => i.removeCollector k

end Change

def Declared.writes (d : Declared) : List Change :=
  d.pods.map Change.putPod ++ d.services.map Change.putService ++ d.endpoints.map Change.putEndpoints

structure History where
  seed : Declared
  changes : List Change

namespace History

def inventory (h : History) : Inventory := h.changes.foldl Change.apply (.ofDeclared h.seed)

def writes (h : History) : List Change := h.seed.writes ++ h.changes

def last? (h : History) (slot : Slot) : Option Object :=
  (h.writes.reverse.find? fun c => c.slot = slot).bind (·.object?)

end History

namespace Inventory

def object? (i : Inventory) : Slot → Option Object
  | .pod k => (i.pods.get? k).map .pod
  | .service k => (i.services.get? k).map .service
  | .endpoints k => (i.endpoints.get? k).map .endpoints
  | .collector k => (i.collectors.get? k).map .collector

variable {i j : Inventory}

theorem eq_of_objects (h : ∀ slot, i.object? slot = j.object? slot) : i = j := by
  have kind {α : Type} {d e : Dict Key α} {wrap : α → Object} (hw : Function.Injective wrap)
      (h : ∀ k, (d.get? k).map wrap = (e.get? k).map wrap) : d = e :=
    Dict.ext fun k => Option.map_injective hw (h k)
  have pods : i.pods = j.pods := kind (fun _ _ => Object.pod.inj) fun k => h (.pod k)
  have services : i.services = j.services := kind (fun _ _ => Object.service.inj) fun k => h (.service k)
  have endpoints : i.endpoints = j.endpoints := kind (fun _ _ => Object.endpoints.inj) fun k => h (.endpoints k)
  have collectors : i.collectors = j.collectors := kind (fun _ _ => Object.collector.inj) fun k => h (.collector k)
  cases i
  cases j
  congr

end Inventory

variable {i : Inventory} {c c' : Change} {slot : Slot}

theorem Change.object?_apply (c : Change) (i : Inventory) (slot : Slot) :
    (c.apply i).object? slot = if slot = c.slot then c.object? else i.object? slot := by
  have put {α : Type} (d : Dict Key α) (wrap : α → Object) (k k' : Key) (a : α) :
      ((d.insert k a).get? k').map wrap = if k' = k then some (wrap a) else (d.get? k').map wrap := by
    rw [Dict.get?_insert]
    split <;> rfl
  have erase {α : Type} (d : Dict Key α) (wrap : α → Object) (k k' : Key) :
      ((d.erase k).get? k').map wrap = if k' = k then none else (d.get? k').map wrap := by
    rw [Dict.get?_erase]
    split <;> rfl
  cases c with
  | putPod p =>
    cases slot with
    | pod k =>
      simp only [Change.slot, Slot.pod.injEq]
      exact put i.pods .pod p.info.key k p
    | service | endpoints | collector => rfl
  | putService x =>
    cases slot with
    | service k =>
      simp only [Change.slot, Slot.service.injEq]
      exact put i.services .service x.info.key k x
    | pod | endpoints | collector => rfl
  | putEndpoints e =>
    cases slot with
    | endpoints k =>
      simp only [Change.slot, Slot.endpoints.injEq]
      exact put i.endpoints .endpoints e.info.key k e
    | pod | service | collector => rfl
  | putCollector k' a =>
    cases slot with
    | collector k =>
      simp only [Change.slot, Slot.collector.injEq]
      exact put i.collectors .collector k' k a
    | pod | service | endpoints => rfl
  | removePod k' =>
    cases slot with
    | pod k =>
      simp only [Change.slot, Slot.pod.injEq]
      exact erase i.pods .pod k' k
    | service | endpoints | collector => rfl
  | removeCollector k' =>
    cases slot with
    | collector k =>
      simp only [Change.slot, Slot.collector.injEq]
      exact erase i.collectors .collector k' k
    | pod | service | endpoints => rfl

theorem Change.apply_comm (h : c.slot ≠ c'.slot) (i : Inventory) :
    c'.apply (c.apply i) = c.apply (c'.apply i) := by
  apply Inventory.eq_of_objects
  intro slot
  rw [object?_apply, object?_apply, object?_apply, object?_apply]
  by_cases hc : slot = c.slot
  · rw [if_pos hc, if_neg fun h' => h (hc.symm.trans h'), if_pos hc]
  · rw [if_neg hc, if_neg hc]

theorem Change.keyed (h : i.Keyed) (c : Change) : (c.apply i).Keyed := by
  cases c with
  | putPod p => exact h.putPod p
  | putService x => exact h.putService x
  | putEndpoints e => exact h.putEndpoints e
  | putCollector => exact { h with }
  | removePod => exact { h with pods := Dict.forall_erase h.pods }
  | removeCollector => exact { h with }

/-! Histories -/

theorem ofDeclared_eq (d : Declared) : Inventory.ofDeclared d = d.writes.foldl Change.apply .empty := by
  simp only [Declared.writes, List.foldl_append, List.foldl_map]
  rfl

namespace History

variable {h h' : History}

theorem inventory_eq (h : History) : h.inventory = h.writes.foldl Change.apply .empty := by
  rw [inventory, ofDeclared_eq, writes, List.foldl_append]

theorem object?_foldl (cs : List Change) (i : Inventory) (slot : Slot) :
    (cs.foldl Change.apply i).object? slot =
      ((cs.reverse.find? fun c => c.slot = slot).map (·.object?)).getD (i.object? slot) := by
  induction cs using List.reverseRecOn with
  | nil => rfl
  | append_singleton cs c ih =>
    rw [List.foldl_append, List.foldl_cons, List.foldl_nil, Change.object?_apply, ih, List.reverse_concat]
    by_cases hc : c.slot = slot
    · rw [if_pos hc.symm, List.find?_cons_of_pos (by simpa using hc)]
      rfl
    · rw [if_neg (Ne.symm hc), List.find?_cons_of_neg (by simpa using hc)]

theorem object?_inventory (h : History) (slot : Slot) : h.inventory.object? slot = h.last? slot := by
  have empty : Inventory.empty.object? slot = none := by cases slot <;> rfl
  rw [inventory_eq, object?_foldl, empty, last?]
  cases h.writes.reverse.find? fun c => c.slot = slot <;> rfl

theorem inventory_congr (hl : ∀ slot, h.last? slot = h'.last? slot) : h.inventory = h'.inventory := by
  apply Inventory.eq_of_objects
  intro slot
  rw [object?_inventory, object?_inventory, hl]

theorem keyed (h : History) : h.inventory.Keyed := by
  rw [inventory]
  induction h.changes using List.reverseRecOn with
  | nil => exact .ofDeclared h.seed
  | append_singleton cs c ih =>
    rw [List.foldl_append]
    exact c.keyed ih

end History

end Cluster

namespace Discovery

open Cluster (Inventory Slot Change History)

def Origin.slots : Origin → List Slot
  | pod k => [.pod k]
  | service k => [.service k]
  | address k _ _ => [.service k, .endpoints k]

namespace Spec

variable {s : Spec} {i j : Inventory} {x : Origin} {t : Target} {c : Change}

theorem Yields.congr (h : s.Yields i x t) (hs : ∀ slot ∈ x.slots, i.object? slot = j.object? slot) :
    s.Yields j x t := by
  have same {α : Type} {d e : Dict Key α} {wrap : α → Cluster.Object} (hw : Function.Injective wrap)
      {k : Key} {a : α} (hd : d.get? k = some a) (h : (d.get? k).map wrap = (e.get? k).map wrap) :
      e.get? k = some a := by
    rw [← Option.map_injective hw h]
    exact hd
  have service {k : Key} {v : Cluster.Service} (hv : i.services.get? k = some v)
      (h : i.object? (.service k) = j.object? (.service k)) : j.services.get? k = some v :=
    same (fun _ _ => Cluster.Object.service.inj) hv h
  cases h with
  | pod on hp hw hip hne =>
    exact .pod on (same (fun _ _ => Cluster.Object.pod.inj) hp (hs _ List.mem_cons_self)) hw hip hne
  | service on hx hw hne hh => exact .service on (service hx (hs _ List.mem_cons_self)) hw hne hh
  | address on hx hw hh he hk hu ha =>
    have endpoints :=
      same (fun _ _ => Cluster.Object.endpoints.inj) hk (hs _ (List.mem_cons_of_mem _ List.mem_cons_self))
    exact .address on (service hx (hs _ List.mem_cons_self)) hw hh he endpoints hu ha

theorem yields_apply (hc : c.slot ∉ x.slots) : s.Yields (c.apply i) x t ↔ s.Yields i x t := by
  have same (slot : Slot) (hs : slot ∈ x.slots) : (c.apply i).object? slot = i.object? slot := by
    rw [Change.object?_apply, if_neg]
    rintro rfl
    exact hc hs
  exact ⟨fun h => h.congr same, fun h => h.congr fun slot hs => (same slot hs).symm⟩

theorem found_apply (s : Spec) (i : Inventory) (c : Change) :
    ((s.found (c.apply i)).filter fun f => c.slot ∉ f.1.slots) = (s.found i).filter
      fun f => c.slot ∉ f.1.slots := by
  apply eq_of_ordered ((found_ordered s _).filter _) ((found_ordered s i).filter _)
  intro x t
  simp only [List.mem_filter, mem_found, decide_eq_true_eq]
  exact and_congr_left yields_apply

/-- What a scan gives depends on what was written last to each slot, whatever was there before. Changes of
different slots can be made in either order. And one more change leaves all targets as they are, in their order,
but those of the origins its slot is part of. -/
theorem scan_histories (s : Spec) :
    (∀ h h' : History, (∀ slot, h.last? slot = h'.last? slot) →
      ∀ o, s.scan h.inventory o = s.scan h'.inventory o) ∧
      (∀ (i : Inventory) (c c' : Change), c.slot ≠ c'.slot → c'.apply (c.apply i) = c.apply (c'.apply i)) ∧
      ∀ (h : History) (c : Change), ∃ before after : List (Origin × Target),
        s.scan h.inventory .none = before.map (·.2) ∧ s.scan (c.apply h.inventory) .none = after.map (·.2) ∧
        (∀ x t, (x, t) ∈ before ↔ s.Yields h.inventory x t) ∧
        (∀ x t, (x, t) ∈ after ↔ s.Yields (c.apply h.inventory) x t) ∧
        (after.filter fun f => c.slot ∉ f.1.slots) = before.filter fun f => c.slot ∉ f.1.slots := by
  refine ⟨fun h h' hl o => ?_, fun i c c' hc => Change.apply_comm hc i, fun h c => ?_⟩
  · rw [History.inventory_congr hl]
  · exact ⟨s.found h.inventory, s.found (c.apply h.inventory), scan_eq_found s h.keyed,
      scan_eq_found s (c.keyed h.keyed), fun x t => mem_found, fun x t => mem_found, found_apply s h.inventory c⟩

def longer : History where
  seed := { shop with pods := [⟨shopInfo "web-1", some "10.0.9.9"⟩] ++ shop.pods }
  changes := [.putPod ⟨shopInfo "web-0", some "10.0.0.7"⟩, .removePod ⟨"shop", "web-0"⟩]

def movedPod : Change := .putPod ⟨shopInfo "web-1", some "10.0.0.8"⟩

theorem scan_histories_longer : (∀ slot, longer.last? slot = (History.mk shop []).last? slot) ∧
    Spec.standard.scan longer.inventory .none = Spec.standard.scan (.ofDeclared shop) .none ∧
    movedPod.slot ≠ (Change.removePod ⟨"shop", "web-0"⟩).slot ∧
    (Change.removePod ⟨"shop", "web-0"⟩).apply (movedPod.apply longer.inventory) =
      movedPod.apply ((Change.removePod ⟨"shop", "web-0"⟩).apply longer.inventory) ∧
    (Spec.standard.scan (movedPod.apply longer.inventory) .none).map (·.ip) =
      ["10.0.0.8", "10.0.0.2", "10.0.0.4", "10.0.1.1"] := by
  have inventory : longer.inventory = (History.mk shop []).inventory := by decide +kernel
  have last : ∀ slot, longer.last? slot = (History.mk shop []).last? slot := by
    intro slot
    rw [← History.object?_inventory, inventory, History.object?_inventory]
  have apart : movedPod.slot ≠ (Change.removePod ⟨"shop", "web-0"⟩).slot := by decide
  obtain ⟨contents, swap, -⟩ := scan_histories .standard
  exact ⟨last, contents longer (History.mk shop []) last .none, apart, swap longer.inventory _ _ apart,
    by decide +kernel⟩

end Spec

end Discovery

end ScrapeRelay

import Mathlib.Data.List.Induction
import ScrapeRelay.Proofs.Relay.Clusters
import ScrapeRelay.Proofs.Relay.Voices
import ScrapeRelay.Proofs.Settings
import ScrapeRelay.Service

/-!
How the service starts. What is declared is installed, the collectors first, each with what it finds around it,
while the tasks that run already take their turns. In the end those are there that could be set up, and
everything is as if the others had not been declared.
-/

namespace ScrapeRelay

namespace Relay

def Event.isEnd : Event → Bool
  | .stopped _ | .closed _ | .sinkClosed _ => true
  | _ => false

def Task.ender? : Task → Option Unit
  | .call .. | .retirement .. => some ()
  | _ => none

theorem ender?_blind : Blind Task.ender? := ⟨fun _ _ _ => rfl, fun _ _ _ _ => rfl⟩

variable {r s : Relay} {me n : Nat} {t t' : Task} {e : Event}

theorem Task.pending_eq_nil (ht : t.ender? = none) : t.pending = [] := by
  cases t <;> first | rfl | cases ht

theorem Acted.ender (h : Acted r me t s t') (ht : t.ender? = none) : t'.ender? = none := by
  cases h with
  | works hp hw => rcases Numbered.worked_task hw with ⟨w', rfl⟩ | rfl <;> rfl
  | waits h => rcases h with rfl | ⟨_, _, rfl⟩ <;> rfl
  | cycles due hn hc h => rcases h with ⟨_, rfl⟩ | rfl <;> rfl
  | calls | retires => cases ht
  | _ => rfl

theorem Tells.isEnd (h : Tells r me t e) (ht : t.ender? = none) : e.isEnd = false ∧ ∀ m, e ≠ .started m := by
  cases h with
  | works hp he => cases e <;> simp_all [Event.isWork, Event.isEnd]
  | retires | stops | closes | shuts | forgets | drops => cases ht
  | _ => exact ⟨rfl, by simp⟩

end Relay

namespace Service

open Settings (Declaration)
open Relay (Reachable)

/-! What can be set up -/

def installable (m : Relay.Means) (d : Declaration Collector.Spec) : Bool :=
  d.spec.validate.isOk && (m.connect d.spec.output.destination).isOk && (m.prepare d.spec.tls).isOk

def inOrder (d : Declaration Discovery.Spec) : Bool := d.spec.validate.isOk

theorem installCollector_eq (m : Relay.Means) (r : Relay) (d : Declaration Collector.Spec) :
    installCollector m r d =
    if installable m d then
      let s := r.putPool d.key d.spec d.spec.bufferSize (fun _ => true) r.reportEvery
      { s with inventory := s.inventory.putCollector d.key d.spec }
    else r := by
  unfold installCollector Relay.installPool Relay.outcome Relay.setUpPoolOut installable
  cases hv : d.spec.validate with
  | error f => rfl
  | ok =>
    cases hc : m.connect d.spec.output.destination with
    | error f => rfl
    | ok =>
      unfold Relay.setUpPool
      cases hp : m.prepare d.spec.tls with
      | error f => rfl
      | ok => rfl

theorem installDiscovery_eq (r : Relay) (d : Declaration Discovery.Spec) : installDiscovery r d =
    if inOrder d then r.putDiscovery d.key d.spec true r.reportEvery.isSome else r := by
  unfold installDiscovery Relay.installDiscovery Relay.outcome Relay.setUpDiscovery inOrder
  cases hv : d.spec.validate with
  | error f => rfl
  | ok => rfl

/-! What happens -/

/-- The service installs what is declared, and meanwhile tasks take their turns, time passes and pages change. -/
inductive Happening where
  | collector (d : Declaration Collector.Spec)
  | discovery (d : Declaration Discovery.Spec)
  | turn (task : Nat)
  | elapse (time : Nat)
  | serve (network : Network)

namespace Happening

def collector? : Happening → Option (Declaration Collector.Spec)
  | collector d => some d
  | _ => none

def discovery? : Happening → Option (Declaration Discovery.Spec)
  | discovery d => some d
  | _ => none

end Happening

section Run

-- what each collector finds around it when it is installed
variable (around : Declaration Collector.Spec → Relay.Means)

def happen (r : Relay) : Happening → Option Relay
  | .collector d => some (installCollector (around d) r d)
  | .discovery d => some (installDiscovery r d)
  | .turn me => r.step me
  | .elapse time => some (r.setClock (r.clock + time))
  | .serve network => some { r with network }

def run (r : Relay) (hs : List Happening) : Option Relay := hs.foldlM (happen around) r

def Happening.works : Happening → Bool
  | collector d => installable (around d) d
  | discovery d => inOrder d
  | _ => true

end Run

/-- All that is declared is installed, in some order but the collectors before the discoveries. -/
structure Startup (s : Settings) (hs : List Happening) : Prop where
  collectors : (hs.filterMap Happening.collector?).Perm s.collectors
  discoveries : (hs.filterMap Happening.discovery?).Perm s.discoveries
  order : hs.Pairwise fun h h' => h.discovery?.isSome = true → h'.collector? = none

def opening (s : Settings) (network : Network) : Relay :=
  .start (.ofDeclared s.cluster) network (some (s.statusIntervalSeconds * 1000))

structure Installed (r : Relay) (cs : List (Declaration Collector.Spec))
    (ds : List (Declaration Discovery.Spec)) : Prop where
  pools : ∀ k, (r.registry.drains.get? k).isSome = true ↔ k ∈ cs.map (·.key)
  channels : ∀ k, (r.registry.channels.get? k).isSome = true ↔ k ∈ cs.map (·.key)
  known : ∀ k, ∃ found, r.inventory.getCollector r.outage k = .ok found ∧ ∀ spec, found = some spec ↔
    ⟨k, spec⟩ ∈ cs
  discoveries : ∀ k, (r.registry.sources.get? k).isSome = true ↔ k ∈ ds.map (·.key)

/-! The start step by step -/

/-- How far the start has come: these collectors and discoveries are installed, and nothing was taken away. -/
structure Starting (r : Relay) (cs : List (Declaration Collector.Spec))
    (ds : List (Declaration Discovery.Spec)) : Prop where
  reachable : Reachable r
  alone : ∀ w, r.view Relay.Task.ender? w = none
  quiet : ∀ e ∈ r.journal, e.isEnd = false
  unscouted : ds = [] → ∀ n, .started (.scout n) ∉ r.journal
  outage : r.outage = .none
  known : ∀ k spec, r.inventory.collectors.get? k = some spec ↔ ⟨k, spec⟩ ∈ cs
  pools : ∀ k, (r.registry.drains.get? k).isSome = true ↔ k ∈ cs.map (·.key)
  discoveries : ∀ k, (r.registry.sources.get? k).isSome = true ↔ k ∈ ds.map (·.key)

variable {r s : Relay} {cs : List (Declaration Collector.Spec)} {ds : List (Declaration Discovery.Spec)} {me : Nat}

theorem isSome_insert {α : Type} {d : Dict Key α} {keys : List Key}
    (h : ∀ k, (d.get? k).isSome = true ↔ k ∈ keys) (k₀ : Key) (a : α) (k : Key) :
    ((d.insert k₀ a).get? k).isSome = true ↔ k ∈ keys ++ [k₀] := by
  rw [Dict.get?_insert, List.mem_append, List.mem_singleton, ← h]
  split <;> simp_all

namespace Starting

theorem installed (h : Starting r cs ds) : Installed r cs ds where
  pools := h.pools
  channels k := by rw [h.reachable.paired, h.pools]
  known k := ⟨r.inventory.collectors.get? k, by rw [h.outage]; rfl, h.known k⟩
  discoveries := h.discoveries

theorem registered {m : Relay.Member} (h : Starting r cs ds) (hm : .started m ∈ r.journal) :
    ∃ k, (r.registry.sources.get? k).map Relay.Source.member = some m ∨
      (r.registry.drains.get? k).map Relay.Drain.member = some m := by
  have none {e : Relay.Event} (he : e.isEnd = true) : r.journal.count e = 0 :=
    List.count_eq_zero_of_not_mem fun hin => by simp [h.quiet e hin] at he
  have lives : r.life m = ⟨r.journal.count (.started m), 0, 0⟩ := by
    rw [Relay.life, Relay.lifeIn, none (e := .stopped m) rfl, none (e := .closed m) rfl]
  cases h.reachable.stage m with
  | owned o ho =>
    have owns := (ho o).mpr rfl
    cases o with
    | source k => exact ⟨k, .inl owns⟩
    | drain k => exact ⟨k, .inr owns⟩
    | task me =>
      have idle := h.alone me
      simp only [Relay.Owns, Relay.pendingOf, Relay.view] at owns idle
      cases ht : r.tasks.get? me with
      | none => simp [ht] at owns
      | some t =>
        rw [ht, Option.bind_some] at idle
        simp [ht, Relay.Task.pending_eq_nil idle] at owns
  | unborn _ hl => exact absurd hm (List.count_eq_zero.mp (congrArg Relay.Life.started (lives.symm.trans hl)))
  | stopped _ hl | closed _ hl => simp [lives] at hl

theorem turn (h : Starting r cs ds) (hs : r.step me = some s) : Starting s cs ds := by
  have hn := h.reachable.numbered
  obtain ⟨t, t', s', ht, ha, -, hv⟩ := Relay.ender?_blind.step hn hs
  have plain : t.ender? = none := (Relay.view_eq ht).symm.trans (h.alone me)
  obtain ⟨u, hu, tells⟩ := Relay.step_tells hn hs
  obtain rfl := Option.some.inj (ht.symm.trans hu)
  have same : s.registry = r.registry := by
    rw [Relay.step_registry hn hs, Relay.entered?, ht, Option.bind_some]
    cases t <;> first | rfl | cases plain
  obtain ⟨inventory, outage⟩ := Prod.mk.inj (Relay.step_cluster hn hs)
  refine ⟨h.reachable.later (.after (.turn me) .same hs), fun w => ?_, fun e he => ?_, fun hd n he => ?_,
    outage.trans h.outage, inventory ▸ h.known, same ▸ h.pools, same ▸ h.discoveries⟩
  · rw [hv]
    split
    · exact ha.ender plain
    · exact h.alone w
  · exact (tells.told he).elim (fun told => (told.isEnd plain).1) (h.quiet e)
  · exact (tells.told he).elim (fun told => (told.isEnd plain).2 _ rfl) (h.unscouted hd n)

theorem begins {m : Relay.Move} {x : Relay.Member} (h : Starting r cs ds) (hm : r.move m = some s)
    (htu : ∀ me, m ≠ .turn me) (hj : s.journal = .started x :: r.journal)
    (hh : (r.hired? m).bind Relay.Task.ender? = none) :
    (∀ w, s.view Relay.Task.ender? w = none) ∧ ∀ e ∈ s.journal, e.isEnd = false := by
  obtain ⟨w₀, -, hv⟩ := Relay.ender?_blind.move h.reachable hm htu
  refine ⟨fun w => ?_, fun e he => ?_⟩
  · rw [hv, hh]
    split
    · rfl
    · exact h.alone w
  · rcases List.mem_cons.mp (hj ▸ he) with rfl | he
    · rfl
    · exact h.quiet e he

theorem collector {m : Relay.Means} {d : Declaration Collector.Spec} (h : Starting r cs ds)
    (hw : installable m d = true) (hk : d.key ∉ cs.map (·.key)) :
    Starting (installCollector m r d) (cs ++ [d]) ds := by
  rw [installCollector_eq, if_pos hw]
  generalize hp : r.putPool d.key d.spec d.spec.bufferSize (fun _ => true) r.reportEvery = p
  have hm : r.move (.addPool d.key d.spec d.spec.bufferSize (fun _ => true) r.reportEvery) = some p :=
    congrArg some hp
  have free : r.registry.drains.get? d.key = none := by
    rw [← Option.not_isSome_iff_eq_none, h.pools]
    exact hk
  have journal := Relay.entered?_drain_journal h.reachable.numbered h.reachable.stage hm rfl
  rw [free, Option.map_none, Option.toList_none, List.singleton_append] at journal
  have registry := Relay.move_registry h.reachable.numbered hm
  have idle : r.retirement? d.key = none := by rw [Relay.retirement?, free]
  obtain ⟨alone, quiet⟩ := h.begins hm (by simp) journal (by rw [Relay.hired?, idle]; rfl)
  obtain ⟨inventory, outage⟩ := Prod.mk.inj (Relay.move_cluster h.reachable.numbered hm (by simp))
  have spread : Reachable { p with inventory := p.inventory.putCollector d.key d.spec } :=
    h.reachable.later (.after (.surround _ p.outage p.network p.refusing) (.after _ .same hm) rfl)
  refine ⟨spread, alone, quiet, fun hd n he => ?_, outage.trans h.outage, fun k spec => ?_, fun k => ?_,
    registry ▸ h.discoveries⟩
  · rcases List.mem_cons.mp (journal ▸ he) with he | he
    · cases he
    · exact h.unscouted hd n he
  · simp only [Cluster.Inventory.putCollector, inventory, Dict.get?_insert, List.mem_append,
      List.mem_singleton, ← h.known]
    obtain ⟨k', spec'⟩ := d
    have out : r.inventory.collectors.get? k' ≠ some spec := fun hs =>
      hk (List.mem_map.mpr ⟨_, (h.known k' spec).mp hs, rfl⟩)
    by_cases he : k = k'
    · subst he
      simp [out, eq_comm]
    · simp [he]
  · rw [registry, List.map_append]
    exact isSome_insert h.pools d.key _ k

theorem discovery {d : Declaration Discovery.Spec} (h : Starting r cs ds) (hd : inOrder d = true)
    (hk : d.key ∉ ds.map (·.key)) : Starting (installDiscovery r d) cs (ds ++ [d]) := by
  rw [installDiscovery_eq, if_pos hd]
  generalize hp : r.putDiscovery d.key d.spec true r.reportEvery.isSome = p
  have hm : r.move (.addDiscovery d.key d.spec true r.reportEvery.isSome) = some p := congrArg some hp
  have free : r.registry.sources.get? d.key = none := by
    rw [← Option.not_isSome_iff_eq_none, h.discoveries]
    exact hk
  have journal := Relay.entered?_source_journal h.reachable.numbered h.reachable.stage hm rfl
  rw [free, Option.map_none, Option.toList_none, List.singleton_append] at journal
  have registry := Relay.move_registry h.reachable.numbered hm
  obtain ⟨alone, quiet⟩ :=
    h.begins hm (by simp) journal (by rw [Relay.hired?, Option.bind_some]; split <;> rfl)
  obtain ⟨inventory, outage⟩ := Prod.mk.inj (Relay.move_cluster h.reachable.numbered hm (by simp))
  refine ⟨h.reachable.later (.after _ .same hm), alone, quiet, by simp, outage.trans h.outage,
    inventory ▸ h.known, registry ▸ h.pools, fun k => ?_⟩
  rw [registry, List.map_append]
  exact isSome_insert h.discoveries d.key _ k

theorem elapse (h : Starting r cs ds) (time : Nat) : Starting (r.setClock (r.clock + time)) cs ds where
  __ := h
  reachable := h.reachable.later (.after (.elapse time) .same rfl)

theorem serve (h : Starting r cs ds) (network : Network) : Starting { r with network } cs ds where
  __ := h
  reachable := h.reachable.later (.after (.surround r.inventory r.outage network r.refusing) .same rfl)

end Starting

/-! The whole start -/

variable {around : Declaration Collector.Spec → Relay.Means}

theorem happen_idle {h : Happening} (hw : h.works around = false) : happen around r h = some r := by
  cases h with
  | collector d => rw [happen, installCollector_eq, if_neg (by simpa [Happening.works] using hw)]
  | discovery d => rw [happen, installDiscovery_eq, if_neg (by simpa [Happening.works] using hw)]
  | _ => cases hw

theorem run_cons (r : Relay) (h : Happening) (hs : List Happening) :
    run around r (h :: hs) = (happen around r h).bind fun s => run around s hs := List.foldlM_cons

theorem run_append (r : Relay) (hs hs' : List Happening) :
    run around r (hs ++ hs') = (run around r hs).bind fun s => run around s hs' := List.foldlM_append

theorem run_works (r : Relay) (hs : List Happening) :
    run around r (hs.filter (·.works around)) = run around r hs := by
  induction hs generalizing r with
  | nil => rfl
  | cons h hs ih =>
    rw [run_cons, List.filter_cons]
    cases hw : h.works around with
    | true =>
      rw [if_pos rfl, run_cons]
      exact congrArg _ (funext ih)
    | false => rw [if_neg Bool.false_ne_true, ih, happen_idle hw, Option.bind_some]

theorem Starting.happen {h : Happening} (hr : Starting r cs ds) (hs : Service.happen around r h = some s)
    (hc : ∀ d ∈ h.collector?, d.key ∉ cs.map (·.key))
    (hd : ∀ d ∈ h.discovery?, d.key ∉ ds.map (·.key)) :
    Starting s (cs ++ h.collector?.toList.filter fun d => installable (around d) d)
      (ds ++ h.discovery?.toList.filter inOrder) := by
  cases hw : h.works around with
  | false =>
    obtain rfl := Option.some.inj ((happen_idle hw).symm.trans hs)
    cases h <;> simp_all [Happening.works, Happening.collector?, Happening.discovery?]
  | true =>
    cases h with
    | collector d =>
      obtain rfl := Option.some.inj hs
      have works : installable (around d) d = true := hw
      simpa [Happening.collector?, Happening.discovery?, works] using hr.collector works (hc d rfl)
    | discovery d =>
      obtain rfl := Option.some.inj hs
      have works : inOrder d = true := hw
      simpa [Happening.collector?, Happening.discovery?, works] using hr.discovery works (hd d rfl)
    | turn me => simpa [Happening.collector?, Happening.discovery?] using hr.turn hs
    | elapse time =>
      obtain rfl := Option.some.inj hs
      simpa [Happening.collector?, Happening.discovery?] using hr.elapse time
    | serve network =>
      obtain rfl := Option.some.inj hs
      simpa [Happening.collector?, Happening.discovery?] using hr.serve network

def succeeded (around : Declaration Collector.Spec → Relay.Means) (hs : List Happening) :
    List (Declaration Collector.Spec) :=
  (hs.filterMap Happening.collector?).filter fun d => installable (around d) d

def scheduled (hs : List Happening) : List (Declaration Discovery.Spec) :=
  (hs.filterMap Happening.discovery?).filter inOrder

theorem new_key {α : Type} {l : List (Declaration α)} {p : Declaration α → Bool} {d : Declaration α}
    (h : ((l ++ [d]).map (·.key)).Nodup) : d.key ∉ (l.filter p).map (·.key) := by
  rw [List.map_append, List.nodup_append] at h
  intro hm
  obtain ⟨e, he, hk⟩ := List.mem_map.mp hm
  exact h.2.2 e.key (List.mem_map_of_mem (List.mem_of_mem_filter he)) d.key (by simp) hk

theorem Starting.run {hs : List Happening} (hr : Starting r [] []) (hrun : Service.run around r hs = some s)
    (hc : ((hs.filterMap Happening.collector?).map (·.key)).Nodup)
    (hd : ((hs.filterMap Happening.discovery?).map (·.key)).Nodup) :
    Starting s (succeeded around hs) (scheduled hs) := by
  induction hs using List.reverseRecOn generalizing s with
  | nil =>
    obtain rfl := Option.some.inj hrun
    exact hr
  | append_singleton hs h ih =>
    rw [run_append] at hrun
    obtain ⟨t, ht, hs'⟩ := Option.bind_eq_some_iff.mp hrun
    rw [run_cons] at hs'
    obtain ⟨u, hu, hlast⟩ := Option.bind_eq_some_iff.mp hs'
    obtain rfl := Option.some.inj hlast
    have last {α : Type} (f : Happening → Option α) :
        (hs ++ [h]).filterMap f = hs.filterMap f ++ (f h).toList := by
      rw [List.filterMap_append]
      cases hf : f h <;> simp [hf]
    rw [last] at hc hd
    have before := ih ht (hc.sublist ((List.sublist_append_left _ _).map _))
      (hd.sublist ((List.sublist_append_left _ _).map _))
    have after := before.happen hu (fun d hm => ?_) fun d hm => ?_
    · rw [succeeded, scheduled, last, last, List.filter_append, List.filter_append]
      exact after
    · rw [Option.mem_def.mp hm] at hc
      exact new_key hc
    · rw [Option.mem_def.mp hm] at hd
      exact new_key hd

theorem ofDeclared_collectors (d : Cluster.Declared) : (Cluster.Inventory.ofDeclared d).collectors = .empty := by
  have kept {α : Type} (put : Cluster.Inventory → α → Cluster.Inventory)
      (h : ∀ i x, (put i x).collectors = i.collectors) (l : List α) (i : Cluster.Inventory) :
      (l.foldl put i).collectors = i.collectors := by
    induction l generalizing i with
    | nil => rfl
    | cons x l ih => rw [List.foldl_cons, ih, h]
  rw [Cluster.Inventory.ofDeclared, kept Cluster.Inventory.putEndpoints fun _ _ => rfl,
    kept Cluster.Inventory.putService fun _ _ => rfl, kept Cluster.Inventory.putPod fun _ _ => rfl]
  rfl

theorem opening_starting (s : Settings) (network : Network) : Starting (opening s network) [] [] where
  reachable := ⟨_, network, _, .same⟩
  alone _ := rfl
  quiet := by simp [opening, Relay.start]
  unscouted := by simp [opening, Relay.start]
  outage := rfl
  known := by simp [opening, Relay.start, ofDeclared_collectors]
  pools _ := by simp [opening, Relay.start, Relay.Registry.empty]
  discoveries _ := by simp [opening, Relay.start, Relay.Registry.empty]

theorem Installed.perm {cs' : List (Declaration Collector.Spec)} {ds' : List (Declaration Discovery.Spec)}
    (h : Installed r cs ds) (hc : cs.Perm cs') (hd : ds.Perm ds') : Installed r cs' ds' where
  pools k := (h.pools k).trans (hc.map _).mem_iff
  channels k := (h.channels k).trans (hc.map _).mem_iff
  known k := by
    obtain ⟨found, hf, hs⟩ := h.known k
    exact ⟨found, hf, fun spec => (hs spec).trans hc.mem_iff⟩
  discoveries k := (h.discoveries k).trans (hd.map _).mem_iff

namespace Startup

variable {config : Settings} {hs first second : List Happening} {h : Happening} {network : Network}

theorem starting (ho : Startup config hs) (hv : config.validate = .ok ()) (hp : first <+: hs)
    (hr : run around (opening config network) first = some r) :
    Starting r (succeeded around first) (scheduled first) := by
  obtain ⟨hc, hd⟩ := Settings.distinct_keys hv
  have part {α : Type} (f : Happening → Option (Declaration α)) {declared : List (Declaration α)}
      (hf : (hs.filterMap f).Perm declared) (hn : (declared.map (·.key)).Nodup) :
      ((first.filterMap f).map (·.key)).Nodup :=
    ((hf.map _).nodup_iff.mpr hn).sublist ((hp.sublist.filterMap f).map _)
  exact (opening_starting config network).run hr (part _ ho.collectors hc) (part _ ho.discoveries hd)

theorem collectors_first (ho : Startup config (first ++ h :: second)) (hd : scheduled (first ++ [h]) ≠ []) :
    (first ++ h :: second).filterMap Happening.collector? = first.filterMap Happening.collector? := by
  have found : ∃ h' ∈ first ++ [h], h'.discovery?.isSome = true := by
    obtain ⟨d, hm⟩ := List.exists_mem_of_ne_nil _ hd
    obtain ⟨h', hm', hd'⟩ := List.mem_filterMap.mp (List.mem_of_mem_filter hm)
    exact ⟨h', hm', by rw [hd']; rfl⟩
  obtain ⟨h', hm', hd'⟩ := found
  obtain ⟨-, later, across⟩ := List.pairwise_append.mp ho.order
  have none : ∀ e ∈ h :: second, e.collector? = none := by
    rcases List.mem_append.mp hm' with hm' | hm'
    · exact fun e he => across h' hm' e he hd'
    · obtain rfl := List.mem_singleton.mp hm'
      refine List.forall_mem_cons.mpr ⟨?_, fun e he => (List.pairwise_cons.mp later).1 e he hd'⟩
      cases h' <;> simp_all [Happening.discovery?, Happening.collector?]
  rw [List.filterMap_append, List.filterMap_eq_nil_iff.mpr none, List.append_nil]

theorem installed (ho : Startup config hs) (hv : config.validate = .ok ())
    (hr : run around (opening config network) hs = some r) :
    Installed r (config.collectors.filter fun d => installable (around d) d) (config.discoveries.filter inOrder) :=
  (ho.starting hv (List.prefix_refl hs) hr).installed.perm (ho.collectors.filter _) (ho.discoveries.filter _)

theorem before_discoveries {r₁ r₂ : Relay} {n : Nat} (ho : Startup config (first ++ h :: second))
    (hv : config.validate = .ok ()) (h₁ : run around (opening config network) first = some r₁)
    (h₂ : happen around r₁ h = some r₂) (hn : .started (.scout n) ∈ r₂.journal) :
    Installed r₁ (config.collectors.filter fun d => installable (around d) d) (scheduled first) := by
  have step : run around (opening config network) (first ++ [h]) = some r₂ := by
    rw [run_append, h₁, Option.bind_some, run_cons, h₂]
    rfl
  have after := ho.starting hv ⟨second, by simp⟩ step
  have before := ho.starting hv (List.prefix_append first (h :: second)) h₁
  have begun : scheduled (first ++ [h]) ≠ [] := fun none => after.unscouted none n hn
  have all : (succeeded around first).Perm (config.collectors.filter fun d => installable (around d) d) := by
    rw [succeeded, ← ho.collectors_first begun]
    exact ho.collectors.filter _
  exact before.installed.perm all (List.Perm.refl _)

end Startup

/-! The service as it starts on its own -/

def declared (config : Settings) : List Happening :=
  config.collectors.map .collector ++ config.discoveries.map .discovery

theorem declared_startup (config : Settings) : Startup config (declared config) where
  collectors := by
    simp [declared, List.filterMap_append, Happening.collector?, Function.comp_def]
  discoveries := by
    simp [declared, List.filterMap_append, Happening.discovery?, Function.comp_def]
  order := by
    refine List.pairwise_append.mpr ⟨?_, ?_, ?_⟩
    · exact List.pairwise_map.mpr (List.pairwise_of_forall fun _ _ h => by cases h)
    · exact List.pairwise_map.mpr (List.pairwise_of_forall fun _ _ _ => rfl)
    · intro h hm h' _ hd
      obtain ⟨d, -, rfl⟩ := List.mem_map.mp hm
      cases hd

theorem relay_run (network : Network) (config : Settings) :
    run around (opening config network) (declared config) = some (relay around network config) := by
  have each {α : Type} (of : α → Happening) (install : Relay → α → Relay)
      (h : ∀ r d, happen around r (of d) = some (install r d)) (ds : List α) (r : Relay) :
      run around r (ds.map of) = some (ds.foldl install r) := by
    induction ds generalizing r with
    | nil => rfl
    | cons d ds ih => rw [List.map_cons, run_cons, h, Option.bind_some, ih, List.foldl_cons]
  rw [declared, run_append, each .collector (fun r d => installCollector (around d) r d) fun _ _ => rfl,
    Option.bind_some, each .discovery installDiscovery fun _ _ => rfl]
  rfl

/-- The service installs just what can be set up of all that is declared, whatever each collector finds when its
turn comes. So it does whatever the order inside the lists and whatever the tasks do meanwhile; then nothing is
stopped, whatever was started is what is registered, and all is as if the rest had not been declared. When the
first discovery starts, all the collectors are there and known. -/
theorem startup {config : Settings} (hv : config.validate = .ok ())
    (around : Declaration Collector.Spec → Relay.Means) (network : Network) :
    Installed (relay around network config) (config.collectors.filter fun d => installable (around d) d)
      (config.discoveries.filter inOrder) ∧
    ∀ hs r, Startup config hs → run around (opening config network) hs = some r →
      Installed r (config.collectors.filter fun d => installable (around d) d)
        (config.discoveries.filter inOrder) ∧
      (∀ e ∈ r.journal, e.isEnd = false) ∧
      (∀ m, .started m ∈ r.journal → ∃ k, (r.registry.sources.get? k).map Relay.Source.member = some m ∨
        (r.registry.drains.get? k).map Relay.Drain.member = some m) ∧
      run around (opening config network) (hs.filter (·.works around)) = some r ∧
      ∀ first h second, hs = first ++ h :: second →
      ∃ r₁ r₂, run around (opening config network) first = some r₁ ∧
        happen around r₁ h = some r₂ ∧ ((∃ n, .started (.scout n) ∈ r₂.journal) →
          Installed r₁ (config.collectors.filter fun d => installable (around d) d) (scheduled first)) := by
  refine ⟨(declared_startup config).installed hv (relay_run network config), fun hs r ho hr => ?_⟩
  have whole := ho.starting hv (List.prefix_refl hs) hr
  refine ⟨ho.installed hv hr, whole.quiet, fun m => whole.registered, (run_works _ hs).trans hr, ?_⟩
  rintro first h second rfl
  rw [run_append] at hr
  obtain ⟨r₁, h₁, hrest⟩ := Option.bind_eq_some_iff.mp hr
  rw [run_cons] at hrest
  obtain ⟨r₂, h₂, -⟩ := Option.bind_eq_some_iff.mp hrest
  exact ⟨r₁, r₂, h₁, h₂, fun ⟨n, hn⟩ => ho.before_discoveries hv h₁ h₂ hn⟩

def direct : Declaration Collector.Spec := ⟨⟨"shop", "main"⟩, .standard⟩

def brokered : Declaration Collector.Spec :=
  ⟨⟨"shop", "lost"⟩, { Collector.Spec.standard with output := ⟨some .standard, false⟩ }⟩

def second : Declaration Collector.Spec := ⟨⟨"shop", "second"⟩, .standard⟩

def pods : Declaration Discovery.Spec := ⟨⟨"shop", "pods"⟩, .standard⟩

def market : Settings := { Settings.standard with collectors := [direct, brokered, second], discoveries := [pods] }

/-- No broker is reachable, and when the second collector's turn comes no client can be made, though it needs no
file. -/
def remote (d : Declaration Collector.Spec) : Relay.Means :=
  .of { Collector.Files.kit fun _ => false with isClient := fun _ => decide (d.key ≠ second.key) } fun _ => false

def busy : List Happening :=
  [.collector direct, .turn 3, .collector brokered, .turn 4, .collector second, .discovery pods, .turn 4]

theorem startup_market : market.validate = .ok () ∧ Installed (relay remote .silent market) [direct] [pods] ∧
    Startup market busy ∧
    ∃ r, run remote (opening market .silent) busy = some r ∧ Installed r [direct] [pods] := by
  have valid : market.validate = .ok () := by decide +kernel
  have pools : (market.collectors.filter fun d => installable (remote d) d) = [direct] := by decide +kernel
  have scouts : market.discoveries.filter inOrder = [pods] := by decide +kernel
  have order : Startup market busy :=
    ⟨.refl _, .refl _, by simp [busy, Happening.discovery?, Happening.collector?]⟩
  obtain ⟨r, hr⟩ : ∃ r, run remote (opening market .silent) busy = some r :=
    Option.isSome_iff_exists.mp (by decide +kernel)
  obtain ⟨alone, among⟩ := startup valid remote .silent
  have installed := (among busy r order hr).1
  exact ⟨valid, scouts ▸ pools ▸ alone, order, r, hr, scouts ▸ pools ▸ installed⟩

end Service

end ScrapeRelay

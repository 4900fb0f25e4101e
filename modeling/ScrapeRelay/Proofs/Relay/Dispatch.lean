import ScrapeRelay.Proofs.Relay.Cycles

/-!
What a whole cycle does. Each collector that the discovery refers to is an errand of its own: what becomes of it
depends on its own turns only, and a channel that no errand was at stays as it is.
-/

namespace ScrapeRelay.Relay

variable {inventory : Cluster.Inventory} {network : Network} {every : Option Nat} {before ms : List Move}
  {r t : Relay} {me n : Nat} {sc : Scout} {spec : Discovery.Spec} {status : Discovery.Status} {batch : List Target}
  {es : List Errand} {k : Key} {rest : List Key} {o : Delivery.Outcome}

theorem DeliversTo.not_closed {c : Nat} {part : List Target}
    (hr : (start inventory network every).replay before = some r)
    (hp : ∀ m ∈ before ++ ms, m.isPooled = true) (h : DeliversTo r ms me n spec batch rest k o) :
    o ≠ .closed c part := by
  rintro rfl
  obtain ⟨-, -, w, -, tally, d, -, result, -, -, -, -, ⟨first, last, rfl, hw, hc⟩, -, -, -, ho⟩ := h
  obtain ⟨a, ha, hac⟩ := Option.bind_eq_some_iff.mp hc
  have hpw : ∀ m ∈ before ++ first, m.isPooled = true := by
    intro m hm
    apply hp m
    rw [← List.append_assoc]
    exact List.mem_append_left _ hm
  have hst := (Staffed.start inventory network every).replay hpw (by rw [replay_append, hr, Option.bind_some, hw])
  cases ho with
  | closed hd hclosed =>
    have hout : a.outbound? = some c := by rw [Task.outbound?, delivery?_cycle hac]; exact hd
    simp [hst.receiver ha hout] at hclosed

/-- The collectors that a discovery refers to do not get into each other's way. A completed cycle makes one
errand for each reference, in order. A reference that is not ready, or that has no channel, gets nothing; any
other one gets the whole batch, or a first part of it where the time of its own send was up. The channels that
no errand was at are left alone at each turn, and the status counts the references, the ready ones among them
and the batch. -/
theorem cycle_isolates (hr : (start inventory network every).replay before = some r)
    (hs : r.scouts.get? n = some sc) (h : Cycled r me n ms status t) :
    ∃ batch es, Scanned r ms me n sc.spec batch ∧ Dispatched r ms me n sc batch es ∧
      t.brought me = r.brought me ++ es.flatMap (·.brings batch) ∧
      (∀ i, (t.broughtTo me i).Sublist (t.pushed i) ∧ t.received i ++ (t.channel i).queue = t.pushed i) ∧
      ((∀ m ∈ before ++ ms, m.isPooled = true) →
        ∀ k c part depth, .made k (.closed c part) depth ∉ es) ∧
      (∀ u v c i, TurnAt r ms me n u c → u.step me = some v → i ∉ channelsOf es →
        v.channel i = u.channel i) ∧
      (t.tasks.get? me = some (.ended (.ok (some status))) ∨
        ∃ due, t.tasks.get? me = some (.loop n due .resting)) ∧
      status.active = true ∧ status.totalCollectors = .ofNat sc.collectors.length ∧
      status.readyCollectors = .ofNat (es.countP (·.isReady)) ∧
      es.countP (·.isReady) ≤ sc.collectors.length ∧
      (sc.collectors.length < 2 ^ 64 → status.readyCollectors ≤ status.totalCollectors) ∧
      status.discoveredResources = .ofNat batch.length := by
  have hreach : Reachable r := ⟨inventory, network, every, replay_later hr⟩
  obtain ⟨batch, es, hb, he, hcl, hcs, w, hstatus⟩ := h.accounts hreach hs
  have hready := he.ready_le
  have hdone : t.HandedOff := (hreach.later (replay_later h.replays)).handedOff
  refine ⟨batch, es, hb, he, hcl.brought, fun i => ⟨t.broughtTo_pushed me i, hdone.conserved i⟩, ?_, ?_,
    h.returns, ?_⟩
  · intro hp k c part depth hmem
    obtain ⟨later, hd⟩ := he.done hmem
    cases hd with
    | made ho => exact ho.not_closed hr hp rfl
  · intro u v c i hu hm hi
    exact hu.channel hm fun hc => hi (hcs u c i hu hc)
  · subst hstatus
    refine ⟨rfl, rfl, rfl, hready, fun hlt => ?_, rfl⟩
    change UInt64.ofNat _ ≤ UInt64.ofNat _
    rw [UInt64.le_iff_toNat_le, UInt64.toNat_ofNat', UInt64.toNat_ofNat', Nat.mod_eq_of_lt hlt]
    exact Nat.le_trans (Nat.mod_le _ _) hready

open Cluster

def alone (me count : Nat) : List Move := List.replicate count (.turn me)

def market (name : String) : Key := ⟨"monitoring", name⟩

def stall (name ip : String) : Pod :=
  ⟨⟨"web", name, "1", .empty, Dict.ofList [("prometheus.io/scrape", "true")]⟩, some ip⟩

def fair : Inventory :=
  let i := Inventory.ofDeclared ⟨[stall "a" "10.0.0.1", stall "b" "10.0.0.2"], [], []⟩
  (((i.putCollector (market "pool") .standard).putCollector (market "slow") .standard).putCollector
    (market "ghost") .standard).putCollector (market "idle") { Collector.Spec.standard with enabled := false }

def fairSpec : Discovery.Spec :=
  { Discovery.Spec.standard with
    collectors := ["lost", "absent", "idle", "ghost", "slow", "pool"].map (⟨"", ·⟩)
    enabled := false
    sendTimeoutSeconds := some 1 }

def fairBefore : List Move :=
  [.addPool (market "pool") .standard 2 (fun _ => true) none,
    .addPool (market "slow") .standard 1 (fun _ => true) none,
    .addDiscovery (market "scan") fairSpec true false, .call (.runOnce 8)]

/-- One lookup fails, one collector is not there, one is disabled, one has no channel and one takes too long;
the last one gets all. -/
def fairRun : List Move :=
  [.turn 10, .turn 10, .surround fair { Outage.none with collectors := true } .silent false, .turn 10,
    .surround fair .none .silent false] ++ alone 10 9 ++ [.elapse 1000] ++ alone 10 9

theorem cycle_isolates_fair :
    ∃ r sc status t, (start fair .silent none).replay fairBefore = some r ∧ r.scouts.get? 8 = some sc ∧
      Cycled r 10 8 (fairRun ++ [.turn 10]) status t ∧
      (t.brought 10).map (fun b => (b.1, b.2.ip)) = [(6, "10.0.0.1"), (2, "10.0.0.1"), (2, "10.0.0.2")] ∧
      ∃ batch es, Dispatched r (fairRun ++ [.turn 10]) 10 8 sc batch es ∧ es.map (·.key) = sc.collectors ∧
        t.brought 10 = r.brought 10 ++ es.flatMap (·.brings batch) ∧
        status.readyCollectors = 3 ∧ status.totalCollectors = 6 ∧
        status.readyCollectors = .ofNat (es.countP (·.isReady)) := by
  have facts : ((start fair .silent none).replay fairBefore).bind (fun r => (r.scouts.get? 8).bind fun sc =>
      ((r.replay fairRun).bind (·.completes? 10 8)).map fun (status, t) =>
        decide (r.cycleOf 10 = some (8, .asking) ∧ r.staysIn 10 8 fairRun = true ∧ sc.connected = true ∧
          (t.brought 10).map (fun b => (b.1, b.2.ip)) = [(6, "10.0.0.1"), (2, "10.0.0.1"), (2, "10.0.0.2")] ∧
          status.readyCollectors = 3 ∧ status.totalCollectors = 6)) = some true := by decide +kernel
  obtain ⟨r, hr, facts⟩ := Option.bind_eq_some_iff.mp facts
  obtain ⟨sc, hs, facts⟩ := Option.bind_eq_some_iff.mp facts
  obtain ⟨⟨status, t⟩, ht, facts⟩ := Option.map_eq_some_iff.mp facts
  obtain ⟨hc, hstays, hconn, hbrought, hready, htotal⟩ := of_decide_eq_true facts
  have h := Cycled.of_run hc hstays ht
  obtain ⟨batch, es, -, he, hb, -, -, -, -, -, -, hcount, -⟩ := cycle_isolates hr hs h
  exact ⟨r, sc, status, t, hr, hs, h, hbrought, batch, es, he, he.keys hconn, hb, hready, htotal, hcount⟩

/-! References to one collector -/

/-- In a run, no send of a cycle fails once it has found its channel: none takes too long. -/
def SendsThrough (r : Relay) (ms : List Move) (me n : Nat) : Prop :=
  ∀ u batch d rest tally s f, TurnAt r ms me n u (.delivering batch d rest tally) →
    u.deliver me d = some (s, .over (.error f)) → d.channel? = none

theorem Later.channel_key {k k' : Key} {c : Nat} (h : Later r t) (hr : Reachable r)
    (hc : r.registry.channels.get? k = some c) (hc' : t.registry.channels.get? k' = some c) : k' = k := by
  refine (h.keeps (P := fun t => c < t.fresh ∧ ∀ k', t.registry.channels.get? k' = some c → k' = k) ?_ hr
    ?_).2 k' hc'
  · rintro u m v hu ⟨hlt, hkey⟩ hm
    refine ⟨Nat.lt_of_lt_of_le hlt (move_fresh hu.numbered hm), fun k' hv => ?_⟩
    rw [move_registry hu.numbered hm] at hv
    cases he : u.entered? m with
    | none =>
      rw [he] at hv
      exact hkey k' hv
    | some e =>
      rw [he, Option.elim_some] at hv
      cases e with
      | source | noSource => exact hkey k' hv
      | noDrain k'' => exact hkey k' (Dict.of_get?_erase hv).2
      | drain k'' d room staff =>
        by_cases hk : k' = k''
        · subst hk
          simp only [Registry.enter, withChannel_same] at hv
          cases hg : u.registry.channels.get? k' with
          | some c' =>
            rw [hg] at hv
            exact hkey k' (hg.trans hv)
          | none =>
            rw [hg] at hv
            have hnew : u.nextChannel m = c := Option.some.inj hv
            exact absurd (hnew ▸ fresh_nextChannel u m) (Nat.not_le_of_lt hlt)
        · exact hkey k' (by simpa [Registry.enter, withChannel_other hk] using hv)
  · exact ⟨hr.numbered.given k c hc, fun k' hk => hr.distinct k' k c hk hc⟩

theorem TurnAt.later {u v : Relay} {c c' : Cycle} (hu : TurnAt r ms me n u c) (hv : TurnAt r ms me n v c') :
    Later u v ∨ Later v u := by
  obtain ⟨first, last, hms, hru, -⟩ := hu
  obtain ⟨first', last', hms', hrv, -⟩ := hv
  have later {xs ys : List Move} {a b : Relay} (hp : xs <+: ys) (ha : r.replay xs = some a)
      (hb : r.replay ys = some b) : Later a b := by
    obtain ⟨zs, rfl⟩ := hp
    rw [replay_append, ha, Option.bind_some] at hb
    exact replay_later hb
  rcases List.prefix_or_prefix_of_prefix ⟨_, hms.symm⟩ ⟨_, hms'.symm⟩ with hp | hp
  · exact .inl (later hp hru hrv)
  · exact .inr (later hp hrv hru)

theorem Errand.Done.found {e : Errand} {c : Nat} (h : e.Done r ms me n spec batch rest)
    (hc : e.channel? = some c) : ∃ v x, TurnAt r ms me n v x ∧ v.registry.channels.get? e.key = some c := by
  cases h with
  | skipped => simp [Errand.channel?] at hc
  | made ho =>
    obtain ⟨_, v, _, _, _, _, _, _, -, -, hv, hk, -⟩ := ho
    exact ⟨v, _, hv, hk.trans hc⟩

theorem Errand.Done.whole {e : Errand} (h : e.Done r ms me n spec batch rest) (hs : SendsThrough r ms me n) :
    e.brings batch = e.channel?.toList.flatMap fun c => batch.map (c, ·) := by
  cases h with
  | skipped => rfl
  | @made _ _ _ o ho =>
    obtain ⟨_, _, w, _, _, d, s, result, -, -, -, -, hw, -, -, hd, ho⟩ := ho
    cases ho with
    | unknown => rfl
    | whole =>
      simp [Errand.brings, Errand.channel?, Delivery.Outcome.brings, Delivery.Outcome.channel?,
        Delivery.Outcome.part]
    | late => simpa [Delivery.channel?] using hs _ _ _ _ _ _ _ hw hd
    | closed hc => simp [hs _ _ _ _ _ _ _ hw hd] at hc

theorem Dispatched.channels_nodup (hr : Reachable r) (h : Dispatched r ms me n sc batch es)
    (hk : (es.map (·.key)).Nodup) : (channelsOf es).Nodup := by
  rw [List.nodup_iff_pairwise_ne, List.pairwise_map] at hk
  rw [channelsOf, List.nodup_iff_pairwise_ne, List.pairwise_filterMap]
  refine hk.imp_of_mem fun {e e'} he he' hne c hc c' hc' heq => ?_
  subst heq
  obtain ⟨_, hd⟩ := h.done he
  obtain ⟨_, hd'⟩ := h.done he'
  obtain ⟨v, x, hv, hfound⟩ := hd.found hc
  obtain ⟨v', x', hv', hfound'⟩ := hd'.found hc'
  have reach {u : Relay} {x : Cycle} (hu : TurnAt r ms me n u x) : Reachable u := by
    obtain ⟨_, _, -, hru, -⟩ := hu
    exact hr.later (replay_later hru)
  rcases hv.later hv' with hl | hl
  · exact hne (hl.channel_key (reach hv) hfound hfound').symm
  · exact hne (hl.channel_key (reach hv') hfound' hfound)

theorem brings_to (cs : List Nat) (batch : List Target) (c : Nat) :
    ((cs.flatMap fun i => batch.map (i, ·)).filterMap fun b => if b.1 = c then some b.2 else none) =
      (List.replicate (cs.count c) batch).flatten := by
  induction cs with
  | nil => rfl
  | cons i cs ih =>
    rw [List.flatMap_cons, List.filterMap_append, ih]
    by_cases hi : i = c
    · subst hi
      rw [List.count_cons_self, List.replicate_succ, List.flatten_cons]
      simp [List.filterMap_map]
    · rw [List.count_cons_of_ne hi]
      simp [List.filterMap_map, hi]

theorem flatten_replicate_eq {α : Type} (m : Nat) (xs : List α) :
    (List.replicate m xs).flatten = xs ↔ m = 1 ∨ xs = [] := by
  constructor
  · intro h
    have hl := congrArg List.length h
    simp only [List.length_flatten, List.map_replicate, List.sum_replicate_nat] at hl
    rcases Nat.eq_zero_or_pos xs.length with hx | hx
    · exact .inr (List.length_eq_zero_iff.mp hx)
    · exact .inl (Nat.eq_of_mul_eq_mul_right hx (by omega))
  · rintro (rfl | rfl) <;> simp

/-- A cycle brings its batch once for each reference, not once for each collector. Where its sends are in time,
every channel that was found gets the whole batch, as a block, as often as it was found: once each just if no
channel was found twice (or the batch is empty). That is so if no two references lead to one collector; then the
sum of what was in flight counts each channel once as well. -/
theorem cycle_brings_once (hr : Reachable r) (hs : r.scouts.get? n = some sc) (h : Cycled r me n ms status t)
    (hsend : SendsThrough r ms me n) :
    ∃ batch es, Scanned r ms me n sc.spec batch ∧ Dispatched r ms me n sc batch es ∧
      t.brought me = r.brought me ++ (channelsOf es).flatMap (fun c => batch.map (c, ·)) ∧
      ((∀ c ∈ channelsOf es, t.broughtTo me c = r.broughtTo me c ++ batch) ↔ (channelsOf es).Nodup ∨
        batch = []) ∧
      status.inFlight = .ofNat (es.map (·.depth)).sum ∧ (sc.collectors.Nodup → (channelsOf es).Nodup) := by
  obtain ⟨batch, es, hb, he, hcl, -, w, hstatus⟩ := h.accounts hr hs
  have hbrings : es.flatMap (·.brings batch) = (channelsOf es).flatMap fun c => batch.map (c, ·) := by
    rw [channelsOf, List.filterMap_eq_flatMap_toList, List.flatMap_assoc]
    exact List.flatMap_congr fun e hmem => (he.done hmem).choose_spec.whole hsend
  have hall := hcl.brought
  rw [hbrings] at hall
  have hto (c : Nat) :
      t.broughtTo me c = r.broughtTo me c ++ (List.replicate ((channelsOf es).count c) batch).flatten := by
    rw [broughtTo, hall, List.filterMap_append, brings_to, broughtTo]
  refine ⟨batch, es, hb, he, hall, ?_, hstatus ▸ rfl, fun hnd => ?_⟩
  · rw [List.nodup_iff_count_eq_one]
    simp only [hto, List.append_cancel_left_eq, flatten_replicate_eq]
    by_cases hb : batch = [] <;> simp [hb]
  · cases hc : sc.connected with
    | true => exact he.channels_nodup hr (by rwa [he.keys hc])
    | false =>
      obtain rfl : es = [] := by simpa [Dispatched, hc] using he
      exact List.nodup_nil

def failsNow (r : Relay) (me : Nat) : Bool :=
  match r.cycleOf me with
  | some (_, .delivering _ d _ _) =>
    match r.deliver me d with
    | some (_, .over (.error _)) => d.channel?.isSome
    | _ => false
  | _ => false

def neverFails (r : Relay) (me : Nat) : List Move → Bool
  | [] => true
  | m :: rest => !r.failsNow me && (r.move m).all fun s => neverFails s me rest

theorem SendsThrough.of_run (h : r.neverFails me ms = true) : SendsThrough r ms me n := by
  rintro u batch d rest tally s f ⟨first, last, rfl, hu, hc⟩ hd
  induction first generalizing r with
  | nil =>
    obtain rfl := Option.some.inj hu
    simp only [List.nil_append, neverFails, failsNow, hc, hd, Bool.and_eq_true, Bool.not_eq_true',
      Option.isSome_eq_false_iff, Option.isNone_iff_eq_none] at h
    exact h.1
  | cons m first ih =>
    obtain ⟨v, hv, hu⟩ := Option.bind_eq_some_iff.mp hu
    simp only [List.cons_append, neverFails, hv, Option.all_some, Bool.and_eq_true] at h
    exact ih h.2 hu

def asking (refs : List Discovery.CollectorRef) : Discovery.Spec :=
  { Discovery.Spec.standard with collectors := refs, enabled := false }

def twoPools : List Move :=
  [.addPool (market "pool") .standard 2 (fun _ => true) none,
    .addPool (market "slow") .standard 2 (fun _ => true) none,
    .addDiscovery (market "scan") (asking [⟨"", "pool"⟩, ⟨"monitoring", "slow"⟩]) true false,
    .call (.runOnce 8)]

theorem cycle_brings_once_two_pools :
    ∃ r sc status t, (start fair .silent none).replay twoPools = some r ∧ r.scouts.get? 8 = some sc ∧
      Cycled r 10 8 (alone 10 15 ++ [.turn 10]) status t ∧
      SendsThrough r (alone 10 15 ++ [.turn 10]) 10 8 ∧ sc.collectors.Nodup ∧
      (t.brought 10).map (fun b => (b.1, b.2.ip)) =
        [(2, "10.0.0.1"), (2, "10.0.0.2"), (6, "10.0.0.1"), (6, "10.0.0.2")] ∧ status.inFlight = 4 ∧
      ∃ batch es, Dispatched r (alone 10 15 ++ [.turn 10]) 10 8 sc batch es ∧
        (channelsOf es).Nodup ∧ ∀ c ∈ channelsOf es, t.broughtTo 10 c = r.broughtTo 10 c ++ batch := by
  have facts : ((start fair .silent none).replay twoPools).bind (fun r => (r.scouts.get? 8).bind fun sc =>
      ((r.replay (alone 10 15)).bind (·.completes? 10 8)).map fun (status, t) =>
        decide (r.cycleOf 10 = some (8, .asking) ∧ r.staysIn 10 8 (alone 10 15) = true ∧
          r.neverFails 10 (alone 10 15 ++ [.turn 10]) = true ∧ sc.collectors.Nodup ∧
          (t.brought 10).map (fun b => (b.1, b.2.ip)) =
            [(2, "10.0.0.1"), (2, "10.0.0.2"), (6, "10.0.0.1"), (6, "10.0.0.2")] ∧
          status.inFlight = 4)) = some true := by decide +kernel
  obtain ⟨r, hr, facts⟩ := Option.bind_eq_some_iff.mp facts
  obtain ⟨sc, hs, facts⟩ := Option.bind_eq_some_iff.mp facts
  obtain ⟨⟨status, t⟩, ht, facts⟩ := Option.map_eq_some_iff.mp facts
  obtain ⟨hc, hstays, hfails, hnd, hbrought, hflight⟩ := of_decide_eq_true facts
  have h := Cycled.of_run hc hstays ht
  have hsend : SendsThrough r (alone 10 15 ++ [.turn 10]) 10 8 := .of_run hfails
  have hreach : Reachable r := ⟨_, _, _, replay_later hr⟩
  obtain ⟨batch, es, -, he, -, hiff, -, hnodup⟩ := cycle_brings_once hreach hs h hsend
  exact ⟨r, sc, status, t, hr, hs, h, hsend, hnd, hbrought, hflight, batch, es, he, hnodup hnd,
    hiff.mpr (.inl (hnodup hnd))⟩

def onePool : List Move :=
  [.addPool (market "pool") .standard 10 (fun _ => true) none,
    .addDiscovery (market "scan") (asking [⟨"", "pool"⟩, ⟨"monitoring", "pool"⟩]) true false,
    .call (.runOnce 4)]

theorem cycle_brings_twice :
    ∃ r sc status t batch, (start fair .silent none).replay onePool = some r ∧ r.scouts.get? 4 = some sc ∧
      sc.spec.validate = .ok () ∧ sc.collectors = [market "pool", market "pool"] ∧
      Cycled r 6 4 (alone 6 15 ++ [.turn 6]) status t ∧
      SendsThrough r (alone 6 15 ++ [.turn 6]) 6 4 ∧
      Scanned r (alone 6 15 ++ [.turn 6]) 6 4 sc.spec batch ∧ batch ≠ [] ∧
      t.registry.channels.get? (market "pool") = some 2 ∧ r.broughtTo 6 2 = [] ∧
      t.broughtTo 6 2 = batch ++ batch ∧ (t.channel 2).depth = 4 ∧ status.inFlight = 6 := by
  have facts : ((start fair .silent none).replay onePool).bind (fun r => (r.scouts.get? 4).bind fun sc =>
      (r.replay [.turn 6]).bind fun u => ((r.replay (alone 6 15)).bind (·.completes? 6 4)).map
        fun (status, t) =>
          decide (r.cycleOf 6 = some (4, .asking) ∧ r.staysIn 6 4 (alone 6 15) = true ∧
            r.neverFails 6 (alone 6 15 ++ [.turn 6]) = true ∧ sc.spec.problems = [] ∧
            sc.collectors = [market "pool", market "pool"] ∧ u.cycleOf 6 = some (4, .scanning) ∧
            sc.spec.scan u.inventory u.outage ≠ [] ∧ t.registry.channels.get? (market "pool") = some 2 ∧
            r.broughtTo 6 2 = [] ∧
            t.broughtTo 6 2 = sc.spec.scan u.inventory u.outage ++ sc.spec.scan u.inventory u.outage ∧
            (t.channel 2).depth = 4 ∧ status.inFlight = 6)) = some true := by decide +kernel
  obtain ⟨r, hr, facts⟩ := Option.bind_eq_some_iff.mp facts
  obtain ⟨sc, hs, facts⟩ := Option.bind_eq_some_iff.mp facts
  obtain ⟨u, hu, facts⟩ := Option.bind_eq_some_iff.mp facts
  obtain ⟨⟨status, t⟩, ht, facts⟩ := Option.map_eq_some_iff.mp facts
  obtain ⟨hc, hstays, hfails, hvalid, hcol, hscan, hne, hrest⟩ := of_decide_eq_true facts
  refine ⟨r, sc, status, t, sc.spec.scan u.inventory u.outage, hr, hs, if_pos hvalid, hcol,
    Cycled.of_run hc hstays ht, .of_run hfails,
    ⟨u, ⟨[.turn 6], alone 6 14, rfl, hu, hscan⟩, rfl⟩, hne, hrest⟩

end ScrapeRelay.Relay

import ScrapeRelay.Proofs.Relay.Dispatch
import ScrapeRelay.Proofs.Relay.Manned
import ScrapeRelay.Proofs.Relay.Removals
import ScrapeRelay.Proofs.Relay.Sinks

/-!
Shutting down. The call lists what is registered and removes one after the other, the discoveries first. A pool
goes on taking targets until nobody can send it any more, so that nothing is left in any channel when the call
is over.
-/

namespace ScrapeRelay.Relay

structure Listed (g : Registry) (acts : List Act) : Prop where
  sources : ∀ k x, g.sources.get? k = some x → .removeSources ∈ acts ∨ .removeSource k ∈ acts
  drains : ∀ k d, g.drains.get? k = some d → .removeDrains ∈ acts ∨ .removeDrain k ∈ acts

structure Registry.Within (g' g : Registry) : Prop where
  sources : ∀ k, g.sources.get? k = none → g'.sources.get? k = none
  drains : ∀ k, g.drains.get? k = none → g'.drains.get? k = none

inductive Clearing (r : Relay) (me : Nat) : Prop
  | going {acts : List Act} (ht : r.tasks.get? me = some (.call acts true))
      (ha : ∀ a ∈ acts, a.isManaging = true) (hl : Listed r.registry acts)
  | done (hl : Listed r.registry [])

variable {r s t : Relay} {me n c i w : Nat} {k : Key} {a : Act} {acts rest : List Act} {tolerant : Bool} {m : Move}
  {p : Pool} {x : Worker} {g g' : Registry}

namespace Listed

theorem within (h : Listed g acts) (hg : g'.Within g) : Listed g' acts := by
  constructor
  · intro k x hx
    cases hk : g.sources.get? k with
    | none => simp [hg.sources k hk] at hx
    | some y => exact h.sources k y hk
  · intro k d hd
    cases hk : g.drains.get? k with
    | none => simp [hg.drains k hk] at hd
    | some y => exact h.drains k y hk

theorem tail (h : Listed g (a :: rest)) (ha : a.isRequest = false) : Listed g rest := by
  have skip {b : Act} (hb : b.isRequest = true) (hin : b ∈ a :: rest) : b ∈ rest := by
    rcases List.mem_cons.mp hin with rfl | hin
    · simp [ha] at hb
    · exact hin
  exact ⟨fun k x hx => (h.sources k x hx).imp (skip rfl) (skip rfl),
    fun k d hd => (h.drains k d hd).imp (skip rfl) (skip rfl)⟩

theorem append (h : Listed g rest) (more : List Act) : Listed g (more ++ rest) :=
  ⟨fun k x hx => (h.sources k x hx).imp (List.mem_append_right more) (List.mem_append_right more),
    fun k d hd => (h.drains k d hd).imp (List.mem_append_right more) (List.mem_append_right more)⟩

theorem cons (h : Listed g rest) (a : Act) : Listed g (a :: rest) := h.append [a]

theorem listsSources (h : Listed g (.removeSources :: rest)) :
    Listed g (g.sources.keys.map .removeSource ++ rest) := by
  constructor
  · intro k x hx
    have hk : k ∈ g.sources.keys := Dict.mem_keys hx
    exact .inr (List.mem_append_left _ (List.mem_map.mpr ⟨k, hk, rfl⟩))
  · intro k d hd
    have h := h.drains k d hd
    simp only [List.mem_cons, reduceCtorEq, false_or] at h
    exact h.imp (List.mem_append_right _) (List.mem_append_right _)

theorem listsDrains (h : Listed g (.removeDrains :: rest)) :
    Listed g (g.drains.keys.map .removeDrain ++ rest) := by
  constructor
  · intro k x hx
    have h := h.sources k x hx
    simp only [List.mem_cons, reduceCtorEq, false_or] at h
    exact h.imp (List.mem_append_right _) (List.mem_append_right _)
  · intro k d hd
    have hk : k ∈ g.drains.keys := Dict.mem_keys hd
    exact .inr (List.mem_append_left _ (List.mem_map.mpr ⟨k, hk, rfl⟩))

theorem removesSource (h : Listed g (.removeSource k :: rest)) (hg : g'.Within g) (hk : g'.sources.get? k = none) :
    Listed g' rest := by
  have h := h.within hg
  constructor
  · intro k' x hx
    have hne : k' ≠ k := by
      rintro rfl
      simp [hk] at hx
    simpa [hne] using h.sources k' x hx
  · intro k' d hd
    simpa using h.drains k' d hd

theorem removesDrain (h : Listed g (.removeDrain k :: rest)) (hg : g'.Within g) (hk : g'.drains.get? k = none) :
    Listed g' rest := by
  have h := h.within hg
  constructor
  · intro k' x hx
    simpa using h.sources k' x hx
  · intro k' d hd
    have hne : k' ≠ k := by
      rintro rfl
      simp [hk] at hd
    simpa [hne] using h.drains k' d hd

end Listed

/-! Clearing the registry -/

theorem Registry.Within.refl (g : Registry) : g.Within g := ⟨fun _ => id, fun _ => id⟩

theorem step_undrained (hn : Numbered r) (hm : r.step me = some s) (hk : r.registry.drains.get? k = none) :
    s.registry.drains.get? k = none := by
  cases step_strikes hn hm with
  | nothing hreg | source _ _ _ hreg => simpa [hreg, Registry.enter] using hk
  | drain _ _ _ hreg => simp [hreg, Registry.enter, hk]

theorem step_within (hn : Numbered r) (hm : r.step me = some s) : s.registry.Within r.registry :=
  ⟨fun _ => step_unregistered hn hm, fun _ => step_undrained hn hm⟩

theorem move_within (hn : Numbered r) (hm : r.move m = some s) (hq : m.isManaging = false) :
    s.registry.Within r.registry := by
  rcases m.turn_or with ⟨me, rfl⟩ | htu
  · exact step_within hn hm
  · have hreg : s.registry = r.registry := by
      rw [move_registry hn hm]
      cases m with
      | turn me => exact absurd rfl (htu me)
      | addDiscovery | addPool | addProbeSource | addProbeDrain => cases hq
      | _ => rfl
    rw [hreg]
    exact .refl _

theorem step_drains {d : Drain} (hn : Numbered r) (hm : r.step me = some s)
    (hk : r.registry.drains.get? k = some d) : s.registry.drains.get? k = some d ∨ ∃ rest tolerant,
      r.tasks.get? me = some (.call (.removeDrain k :: rest) tolerant) ∧
      s.tasks.get? me = some (.call (.closeDrain d :: .forgetCollector k :: rest) tolerant) := by
  cases step_strikes hn hm with
  | nothing hreg | source _ _ _ hreg => exact .inl (by simpa [hreg, Registry.enter] using hk)
  | @drain k' _ rest tolerant hd ht ht' hreg =>
    by_cases hne : k = k'
    · subst hne
      obtain rfl := Option.some.inj (hk.symm.trans hd)
      exact .inr ⟨rest, tolerant, ht, ht'⟩
    · exact .inl (by simpa [hreg, Registry.enter, hne] using hk)

theorem Called.clears {t' : Task} (h : Called r me true acts s t') (ha : ∀ a ∈ acts, a.isManaging = true)
    (hl : Listed r.registry acts) (hw : s.registry.Within r.registry) :
    (∃ acts', t' = .call acts' true ∧ (∀ a ∈ acts', a.isManaging = true) ∧ Listed s.registry acts') ∨
      Listed s.registry [] := by
  have none {a : Act} {rest : List Act} (ha : ∀ b ∈ a :: rest, b.isManaging = true)
      (hno : a.isManaging = false) : False := by simp [ha a List.mem_cons_self] at hno
  have rests {a : Act} {rest : List Act} (ha : ∀ b ∈ a :: rest, b.isManaging = true) :
      ∀ b ∈ rest, b.isManaging = true :=
    fun b hb => ha b (List.mem_cons_of_mem a hb)
  have more (as : List Act) {rest : List Act} (has : ∀ b ∈ as, b.isManaging = true)
      (hr : ∀ b ∈ rest, b.isManaging = true) :
      ∀ b ∈ as ++ rest, b.isManaging = true := fun b hb => (List.mem_append.mp hb).elim (has b) (hr b)
  have requests {f : Key → Act} (hf : ∀ k, (f k).isManaging = true) (ks : List Key) :
      ∀ b ∈ ks.map f, b.isManaging = true := by
    intro b hb
    obtain ⟨k, -, rfl⟩ := List.mem_map.mp hb
    exact hf k
  cases h with
  | ends => exact .inr hl
  | sends | cycles | strays | sleeps => exact (none ha rfl).elim
  | listsSources rest => exact .inl ⟨_, rfl, more _ (requests (fun _ => rfl) _) (rests ha), hl.listsSources⟩
  | listsDrains rest => exact .inl ⟨_, rfl, more _ (requests (fun _ => rfl) _) (rests ha), hl.listsDrains⟩
  | @removesSource k x rest hx =>
    have hl' := hl.removesSource hw (by simp)
    exact .inl ⟨_, rfl,
      more [.stopSource x, .joinSource x, .forgetDiscovery k] (by simp [Act.isManaging]) (rests ha),
      hl'.append [_, _, _]⟩
  | missesSource f rest hx => exact .inl ⟨_, rfl, rests ha, hl.removesSource hw hx⟩
  | @removesDrain k d rest hd =>
    have hl' := hl.removesDrain hw (by simp)
    exact .inl ⟨_, rfl, more [.closeDrain d, .forgetCollector k] (by simp [Act.isManaging]) (rests ha),
      hl'.append [_, _]⟩
  | missesDrain f rest hd => exact .inl ⟨_, rfl, rests ha, hl.removesDrain hw hd⟩
  | awaits rest | stops x rest | forgets k rest | shuts i rest | drops k rest =>
    exact .inl ⟨_, rfl, rests ha, (hl.within hw).tail rfl⟩
  | joins x rest =>
    exact .inl ⟨_, rfl, more [.await (r.joinSource x).2] (by simp [Act.isManaging]) (rests ha),
      ((hl.within hw).tail rfl).cons _⟩
  | closes d rest =>
    refine .inl ⟨_, rfl, more _ ?_ (rests ha), ((hl.within hw).tail rfl).append _⟩
    cases d with
    | probe n keeps => rw [closeDrain_probe]; simp
    | pool n =>
      cases hp : r.pools.get? n with
      | none => simp [closeDrain, hp]
      | some p => simp [closeDrain_pool hp, Act.isManaging]

theorem Clearing.move (h : Clearing r me) (hr : Reachable r) (hm : r.move m = some s) (hq : m.isManaging = false) :
    Clearing s me := by
  have hw := move_within hr.numbered hm hq
  cases h with
  | done hl => exact .done (hl.within hw)
  | going ht ha hl =>
    by_cases htu : m = .turn me
    · subst htu
      obtain ⟨s', t', hc, rfl⟩ := step_called ht hm
      rcases hc.clears ha hl hw with ⟨acts', rfl, ha', hl'⟩ | hl'
      · exact .going (get?_setTask ..) ha' hl'
      · exact .done hl'
    · exact .going (task_kept hr.numbered hm ht htu (by simp)) ha (hl.within hw)

theorem Clearing.ended (h : Clearing r me) (hr : Reachable r) (he : r.hasEnded me = true) :
    r.registry = .empty := by
  cases h with
  | going ht => simp [hasEnded, ht, Task.isEnded] at he
  | done hl =>
    have hs (k : Key) : r.registry.sources.get? k = none := by
      cases hk : r.registry.sources.get? k with
      | none => rfl
      | some x => simpa using hl.sources k x hk
    have hd (k : Key) : r.registry.drains.get? k = none := by
      cases hk : r.registry.drains.get? k with
      | none => rfl
      | some x => simpa using hl.drains k x hk
    have hc (k : Key) : r.registry.channels.get? k = none := by
      have := hr.paired k
      rw [hd] at this
      simpa using this
    generalize r.registry = g at hs hd hc
    obtain ⟨sources, drains, channels⟩ := g
    have hs := Dict.ext (e := .empty) hs
    have hd := Dict.ext (e := .empty) hd
    have hc := Dict.ext (e := .empty) hc
    subst hs hd hc
    rfl

/-! Channels -/

/-- Where something is left or on its way, there are workers. -/
def Tended (r : Relay) : Prop := ∀ c, (r.channel c).next? ≠ none → Manned r c

theorem move_still (hn : Numbered r) (hm : r.move m = some s) (hno : (r.channel c).next? = none)
    (hfree : ∀ w t, r.tasks.get? w = some t → t.outbound? ≠ some c) : Still r s c := by
  rcases m.turn_or with ⟨me, rfl⟩ | htu
  · obtain ⟨t, t', s', ht, -, hd, rfl⟩ := step_did hn hm
    refine Still.setTask ?_
    cases hd with
    | nothing hq => exact .quiet hq c
    | delivered d hd hs => exact .delivered hs fun hc => hfree me t ht (by simp [Task.outbound?, hd, hc])
    | worked _ _ _ _ _ _ hs => exact .worked hs (.inr hno)
  · exact .quiet (move_quiet hn hm htu) c

theorem Tended.move (h : Tended r) (hs : Staffed r) (hm : r.move m = some s) : Tended s := by
  intro c hc
  by_contra hno
  -- without workers before the move nothing was there, and nobody was about to bring anything
  have hunmanned : ¬ Manned r c := fun hc => hno (hc.move hs.reachable hs.pooled hm)
  have hnone : (r.channel c).next? = none := by
    by_contra h'
    exact hunmanned (h c h')
  have still := move_still hs.reachable.numbered hm hnone fun w t ht ho => hunmanned (hs.manned w t c ht ho)
  obtain ⟨hq, hb⟩ := next?_empty.mp hnone
  exact hc (next?_empty.mpr ⟨still.queue.trans hq, still.blocked.trans hb⟩)

theorem Reachable.takers {task? : Option Nat} {x : Target} (hr : Reachable r)
    (he : .taken c task? x ∈ r.journal) :
    ∃ w n y q, task? = some w ∧ Later q r ∧ q.tasks.get? w = some (.worker n c y) := by
  refine hr.holds (P := fun r => ∀ c task? x, .taken c task? x ∈ r.journal →
    ∃ w n y q, task? = some w ∧ Later q r ∧ q.tasks.get? w = some (.worker n c y)) ?_ ?_ c task? x he
  · intro inventory network every c task? x he
    simp [start] at he
  · intro r m s hr h hm c task? x he
    have old (he : .taken c task? x ∈ r.journal) :
        ∃ w n y q, task? = some w ∧ Later q s ∧ q.tasks.get? w = some (.worker n c y) := by
      obtain ⟨w, n, y, q, hw, hl, ht⟩ := h c task? x he
      exact ⟨w, n, y, q, hw, .after m hl hm, ht⟩
    rcases m.turn_or with ⟨me, rfl⟩ | htu
    · obtain ⟨t, ht, hj⟩ := step_tells hr.numbered hm
      rcases hj.told he with he | he
      · generalize hev : Event.taken c task? x = e at he
        cases he with
        | works hp hw ho htaken =>
          obtain ⟨rfl, hw⟩ := htaken c task? x hev.symm
          exact ⟨me, _, _, r, hw, .after _ .same hm, ht⟩
        | _ => cases hev
      · exact old he
    · rcases (move_tells hr hm htu).told he with he | he
      · cases he
      · exact old he

theorem Tended.emptied (h : Tended r) (hr : Reachable r) (hreg : r.registry = .empty)
    (hno : ∀ w acts tolerant, r.tasks.get? w = some (.call acts tolerant) → acts.any Act.isManaging = false)
    (c : Nat) :
    r.received c = r.pushed c := by
  have hnext : (r.channel c).next? = none := by
    by_contra hc
    rcases h c hc with ⟨k, hk⟩ | ⟨me, n, hclosing⟩
    · simp [hreg, Registry.empty] at hk
    · cases hclosing with
      | taken ht => simpa [Act.isManaging] using hno me _ _ ht
      | waiting ht => simpa [Act.isManaging] using hno me _ _ ht
      | done hs => exact hc hs.next?
  have hconserved := hr.handedOff.conserved c
  rw [(next?_empty.mp hnext).1, List.append_nil] at hconserved
  exact hconserved

/-! Pools -/

structure Settled (r : Relay) (n i : Nat) : Prop where
  crew : CrewGone r n
  handled : ∀ q w c x, Reachable q → Later q r → q.tasks.get? w = some (.worker n c x) →
    r.receivedBy w = r.handledBy w
  closed : r.closures i = 1
  last : r.journal.Pairwise fun later earlier => earlier = .sinkClosed i → later.sink? ≠ some i

theorem Reachable.settled (hr : Reachable r) (hp : r.pools.get? n = some p)
    (hj : .sinkClosed p.sink ∈ r.journal) : Settled r n p.sink := by
  obtain ⟨log, hb⟩ := hr.booked
  obtain ⟨hclosed, hno⟩ := (hr.sinkStage p.sink).after hj
  rw [hb.sinks n p hp] at hno
  have hcrew : CrewGone r n := .of_none hno
  refine ⟨hcrew, fun q w c x hq hl ht => ?_, hclosed, hr.closed_last p.sink⟩
  rw [hr.handedOff.accounted, inHand_ended (hcrew q w c x hq hl ht), List.append_nil]

def Passing (r : Relay) (me n : Nat) (k : Key) (i : Nat) : Prop :=
  (∃ p, r.pools.get? n = some p ∧ p.sink = i) ∧
  (r.registry.drains.get? k = some (.pool n) ∨ Closure r me n i)

theorem Passing.move (h : Passing r me n k i) (ha : Alone r me) (hm : r.move m = some s)
    (hq : m.isManaging = false) : Passing s me n k i := by
  obtain ⟨⟨p, hp, hi⟩, h⟩ := h
  have hr := ha.reachable
  obtain ⟨p', hp', hi'⟩ := move_pool hr hp hm
  refine ⟨⟨p', hp', hi'.trans hi⟩, ?_⟩
  rcases h with hd | hc
  · rcases m.turn_or with ⟨w, rfl⟩ | htu
    · rcases step_drains hr.numbered hm hd with hd | ⟨rest, tolerant, ht, ht'⟩
      · exact .inl hd
      · obtain rfl := ha.sole w _ _ ht rfl
        exact .inr (.taken ht')
    · left
      rw [move_registry hr.numbered hm]
      cases m with
      | turn w => exact absurd rfl (htu w)
      | addDiscovery | addPool | addProbeSource | addProbeDrain => cases hq
      | _ => exact hd
  · exact .inr (hc.move hr hp hi hm)

/-! Runs -/

theorem pooled_quiet (h : m.isManaging = false) : m.isPooled = true := by
  cases m with
  | addProbeDrain => cases h
  | _ => rfl

structure Running (r : Relay) : Prop where
  staffed : Staffed r
  tended : Tended r

theorem Running.start (inventory : Cluster.Inventory) (network : Network) (every : Option Nat) :
    Running (start inventory network every) := by
  refine ⟨.start inventory network every, fun c hc => ?_⟩
  exact absurd rfl hc

theorem Running.move (h : Running r) (hp : m.isPooled = true) (hm : r.move m = some s) : Running s :=
  ⟨h.staffed.move hp hm, h.tended.move h.staffed hm⟩

/-- A relay that is being shut down; `g` is what was registered when that began. -/
structure Draining (g : Registry) (me : Nat) (r : Relay) : Prop where
  running : Running r
  alone : Alone r me
  clearing : Clearing r me
  removals : ∀ k n, g.sources.get? k = some (.scout n) → Removal (fun _ => True) r me n k
  pools : ∀ k n, g.drains.get? k = some (.pool n) → ∃ i, Passing r me n k i

theorem Draining.call (h : Running r) (hb : r.isBusy = false) (hm : r.move (.call .shutdown) = some s) :
    Draining r.registry r.fresh s := by
  have hr := h.staffed.reachable
  have halone := Alone.call hr hb hm
  have hrunning := h.move rfl hm
  obtain rfl := Option.some.inj hm
  refine ⟨hrunning, halone, .going (get?_setTask ..) (by simp [Call.acts, shutdownCall, Act.isManaging]) ?_,
    fun k n hk => .registered hk, fun k n hk => ?_⟩
  · constructor
    · intro k x hx
      simp [Call.acts, shutdownCall]
    · intro k d hd
      simp [Call.acts, shutdownCall]
  · have ho : Owns r (.drain k) (.pool n) := by simp [Owns, hk, Drain.member]
    obtain ⟨p, hp, -⟩ := Option.map_eq_some_iff.mp ((hr.stage _).sign ho)
    exact ⟨p.sink, ⟨p, hp, rfl⟩, .inl hk⟩

theorem Draining.move (h : Draining g me r) (hq : m.isManaging = false) (hm : r.move m = some s) :
    Draining g me s where
  running := h.running.move (pooled_quiet hq) hm
  alone := h.alone.move hm hq
  clearing := h.clearing.move h.alone.reachable hm hq
  removals k n hk := (h.removals k n hk).move h.alone hm hq (fun _ _ _ _ _ => trivial) id
  pools k n hk := by
    obtain ⟨i, hi⟩ := h.pools k n hk
    exact ⟨i, hi.move h.alone hm hq⟩

theorem Draining.unmanaged (h : Draining g me r) (he : r.hasEnded me = true)
    (ht : r.tasks.get? w = some (.call acts tolerant)) : acts.any Act.isManaging = false := by
  by_contra hany
  obtain rfl := h.alone.sole w acts tolerant ht (by simpa using hany)
  simp [hasEnded, ht, Task.isEnded] at he

/-- Whatever was registered, buffered and under way: when the call that shuts down is over and nobody else has
managed discoveries and pools meanwhile, nothing is registered any more, no loop that was runs on, all that ever
entered a channel was received by a worker of it, and the pools are done with all that they received and have
closed their sinks. -/
theorem shutdown_drains {inventory : Cluster.Inventory} {network : Network} {every : Option Nat}
    {before during : List Move} (hb : (start inventory network every).replay before = some r)
    (hpooled : ∀ m ∈ before, m.isPooled = true)
    (hfree : r.isBusy = false) (hs : r.move (.call .shutdown) = some s) (hd : s.replay during = some t)
    (hquiet : ∀ m ∈ during, m.isManaging = false) (he : t.hasEnded r.fresh = true) :
    t.registry = .empty ∧
    (∀ k n, r.registry.sources.get? k = some (.scout n) →
      ∀ w due stage, t.tasks.get? w ≠ some (.loop n due stage)) ∧
    (∀ c, t.received c = t.pushed c ∧ ∀ task? x, .taken c task? x ∈ t.journal →
      ∃ w n y q, task? = some w ∧ Later q t ∧ q.tasks.get? w = some (.worker n c y)) ∧
    ∀ k n, r.registry.drains.get? k = some (.pool n) → ∃ p, t.pools.get? n = some p ∧
    Settled t n p.sink := by
  have hr : Running r := replay_keeps_by (P := Running) (fun _ _ _ h hp hm => h.move hp hm) hpooled hb (.start ..)
  have h : Draining r.registry r.fresh t :=
    replay_keeps_by (fun _ _ _ h hq hm => h.move hq hm) hquiet hd (.call hr hfree hs)
  have ht := h.alone.reachable
  have hempty := h.clearing.ended ht he
  refine ⟨hempty, ?_, fun c => ⟨?_, fun task? x htaken => ht.takers htaken⟩, ?_⟩
  · intro k n hk w due stage hw
    rcases (h.removals k n hk).ended he with hk | ⟨-, hu, -⟩
    · simp [hempty, Registry.empty] at hk
    · exact hu w (view_eq hw)
  · exact h.running.tended.emptied ht hempty (fun w acts tolerant hw => h.unmanaged he hw) c
  · intro k n hk
    obtain ⟨i, ⟨p, hp, rfl⟩, hd | hc⟩ := h.pools k n hk
    · simp [hempty, Registry.empty] at hd
    · exact ⟨p, hp, ht.settled hp (hc.ended he)⟩

/-- A discovery is in the middle of a cycle: one of its targets is in the channel, the next one does not fit. -/
def roundBefore : List Move :=
  [.addPool (market "pool") .standard 1 (fun _ => true) none,
    .addDiscovery (market "scan") { Discovery.Spec.standard with collectors := [⟨"", "pool"⟩] } true
      false] ++ alone 5 7

def roundAfter : List Move :=
  alone 6 4 ++ alone 3 1 ++ alone 5 6 ++ alone 6 5 ++ alone 3 4 ++ alone 6 4

theorem shutdown_drains_round : ∃ r s t, (start fair .silent none).replay roundBefore = some r ∧
    r.move (.call .shutdown) = some s ∧ s.replay roundAfter = some t ∧
    (r.channel 2).queue.map (·.ip) = ["10.0.0.1"] ∧ (r.channel 2).blocked.map (·.2.ip) = ["10.0.0.2"] ∧
    t.registry = .empty ∧ (∀ due stage, t.tasks.get? 5 ≠ some (.loop 4 due stage)) ∧
    (t.received 2).map (·.ip) = ["10.0.0.1", "10.0.0.2"] ∧ Settled t 1 0 := by
  have facts : ((start fair .silent none).replay roundBefore).any (fun r =>
      r.isBusy = false ∧ (r.channel 2).queue.map (·.ip) = ["10.0.0.1"] ∧
      (r.channel 2).blocked.map (·.2.ip) = ["10.0.0.2"] ∧ r.fresh = 6 ∧
      r.registry.sources.get? (market "scan") = some (.scout 4) ∧
      r.registry.drains.get? (market "pool") = some (.pool 1) ∧
      (r.move (.call .shutdown)).any fun s => (s.replay roundAfter).any fun t =>
        t.hasEnded 6 = true ∧ (t.pools.get? 1).map (·.sink) = some 0 ∧
        (t.pushed 2).map (·.ip) = ["10.0.0.1", "10.0.0.2"]) = true := by
    decide +kernel
  obtain ⟨r, hr, facts⟩ := (Option.any_eq_true ..).mp facts
  obtain ⟨hfree, hqueue, hblocked, hfresh, hscan, hpool, facts⟩ := of_decide_eq_true facts
  obtain ⟨s, hs, facts⟩ := (Option.any_eq_true ..).mp facts
  obtain ⟨t, ht, facts⟩ := (Option.any_eq_true ..).mp facts
  obtain ⟨hended, hsink, hpushed⟩ := of_decide_eq_true facts
  obtain ⟨hempty, hloops, hchannels, hpools⟩ :=
    shutdown_drains hr (by decide) hfree hs ht (by decide) (hfresh ▸ hended)
  obtain ⟨p, hp, hsettled⟩ := hpools _ 1 hpool
  obtain ⟨p', hp', hsink⟩ := Option.map_eq_some_iff.mp hsink
  obtain rfl := Option.some.inj (hp.symm.trans hp')
  exact ⟨r, s, t, hr, hs, ht, hqueue, hblocked, hempty, hloops _ 4 hscan 5, (hchannels 2).1 ▸ hpushed,
    hsink ▸ hsettled⟩

end ScrapeRelay.Relay

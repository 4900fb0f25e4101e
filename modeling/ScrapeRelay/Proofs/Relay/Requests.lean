import ScrapeRelay.Proofs.Relay.Crews

/-!
What a manager is asked for: to set discoveries and pools up and to take them away again. A request that fails is
refused before it has done anything, whatever is there under its key.
-/

namespace ScrapeRelay.Relay

/-- Makes a call and waits for it; one that is given up does not fail. -/
def await (a : Act) : Manage Unit := fun r =>
  match r.perform [a] false with
  | (s, some (.error f)) => .error f s
  | (s, _) => .ok () s

inductive Request where
  | addDiscovery (k : Key) (spec : Discovery.Spec)
  | addPool (k : Key) (spec : Collector.Spec)
  | addPoolWith (k : Key) (spec : Collector.Spec) (sink : Nat)
  | deleteDiscovery (k : Key)
  | deletePool (k : Key)

namespace Request

def run (m : Means) : Request → Manage Unit
  | addDiscovery k spec => setUpDiscovery k spec
  | addPool k spec => setUpPoolOut m.connect m.prepare k spec
  | addPoolWith k spec sink => setUpPoolWith m.prepare k spec sink
  | deleteDiscovery k => await (.removeSource k)
  | deletePool k => await (.removeDrain k)

def check (m : Means) (r : Relay) : Request → Except Failure Unit
  | addDiscovery _ spec => spec.validate
  | addPool _ spec => do
    spec.validate
    m.connect spec.output.destination
    m.prepare spec.tls
  | addPoolWith _ spec _ => do
    spec.validate
    m.prepare spec.tls
  | deleteDiscovery k =>
    if (r.registry.sources.get? k).isSome then .ok () else .error (.notFound s!"discovery {k}")
  | deletePool k => if (r.registry.drains.get? k).isSome then .ok () else .error (.notFound s!"collector {k}")

def sink? : Request → Option Nat
  | addPoolWith _ _ sink => some sink
  | _ => none

def deletion? : Request → Option Act
  | deleteDiscovery k => some (.removeSource k)
  | deletePool k => some (.removeDrain k)
  | _ => none

end Request

/-- All that there was is as it was; numbers may be spent, also for a sink that nobody writes to. -/
structure Untouched (r s : Relay) : Prop where
  same : s = { r with fresh := s.fresh, outlets := s.outlets }
  outlets : ∀ i < r.fresh, s.outlets.get? i = r.outlets.get? i
  fresh : r.fresh ≤ s.fresh

inductive Spent (r : Relay) : Relay → Prop
  | nothing : Spent r r
  | number : Spent r { r with fresh := r.fresh + 1 }
  | sink (accepts : Nat → Bool) : Spent r (r.addOutlet accepts).1

variable {r s : Relay} {me : Nat} {t t' : Task} {q : Request} {f : Failure}

namespace Spent

theorem untouched (h : Spent r s) : Untouched r s := by
  cases h with
  | nothing => exact ⟨rfl, fun _ _ => rfl, Nat.le_refl _⟩
  | number => exact ⟨rfl, fun _ _ => rfl, Nat.le_succ _⟩
  | sink accepts =>
    refine ⟨rfl, ?_, Nat.le_succ _⟩
    intro i hi
    simp [addOutlet, Nat.ne_of_lt hi]

theorem numbered (h : Spent r s) (hn : Numbered r) : Numbered s := by
  cases h with
  | nothing => exact hn
  | number => exact hn.mono (Nat.le_succ _)
  | sink accepts => exact hn.addOutlet accepts

end Spent

/-! What running in order keeps -/

theorem patience_add_two : ∃ n, patience = n + 2 := ⟨patience - 2, (Nat.sub_add_cancel (by decide)).symm⟩

section Order

variable {P : Relay → Prop} (hstep : ∀ r me s, P r → r.step me = some s → P s)

include hstep

theorem runTask_keeps (fuel : Nat) (h : P r) : P (runTask fuel r me) := by
  induction fuel generalizing r with
  | zero => exact h
  | succ fuel ih =>
    rw [runTask]
    split
    · exact h
    · rename_i s hs
      exact ih (hstep r me s h hs)

theorem round_keeps (out : Option Nat) (h : P r) : P (r.round out).1 := by
  refine List.foldlRecOn (motive := fun (x : Relay × Bool) => P x.1) _ _ h ?_
  intro x hx me _
  dsimp only
  split
  · exact hx
  · split
    · exact hx
    · rename_i s hs
      exact runTask_keeps hstep patience (hstep x.1 me s hx hs)

theorem settleFor_keeps (fuel : Nat) (out : Option Nat) (h : P r) : P (settleFor fuel r out) := by
  induction fuel generalizing r with
  | zero => exact h
  | succ fuel ih =>
    have hr := round_keeps hstep out h
    simp only [settleFor]
    split
    · exact ih hr
    · exact hr

variable (hclock : ∀ r t, P r → P (r.setClock t))

include hclock

theorem finishBy_keeps_after (fuel last : Nat) (ih : ∀ r, P r → P (finishBy fuel r me last))
    (h : P (runTask patience r me)) : P (finishBy (fuel + 1) r me last) := by
  have hr := settleFor_keeps hstep patience (some me) h
  simp only [finishBy]
  split
  · exact h
  · split
    · exact ih _ hr
    · split
      · split
        · exact ih _ (hclock _ _ hr)
        · exact hclock _ _ hr
      · exact hclock _ _ hr

theorem finishBy_keeps (fuel last : Nat) (h : P r) : P (finishBy fuel r me last) := by
  induction fuel generalizing r with
  | zero => exact h
  | succ fuel ih =>
    exact finishBy_keeps_after hstep hclock fuel last (fun _ => ih) (runTask_keeps hstep patience h)

end Order

/-! Deletions -/

theorem perform_eq {a : Act} (hf : finishBy patience (r.call [a] false).1 r.fresh (r.clock + longest) = s) :
    r.perform [a] false =
      match s.tasks.get? r.fresh with
      | some (.ended o) => ({ s with tasks := s.tasks.erase r.fresh }, some o)
      | _ => (s.abandon r.fresh, none) := by
  subst hf
  rfl

namespace Act

/-- What cannot fail, and leads to nothing that can. -/
def isSure : Act → Bool
  | .deliver _ | .cycle .. | .removeSource _ | .removeDrain _ | .removeSources | .removeDrains => false
  | _ => true

end Act

def Task.isSure : Task → Bool
  | .call acts _ => acts.all Act.isSure
  | .ended (.ok _) => true
  | _ => false

def Sure (r : Relay) (me : Nat) : Prop := ∃ t, r.tasks.get? me = some t ∧ t.isSure = true

theorem act_sure {a : Act} {p : Act.Progress} (ha : a.isSure = true) (h : r.act me a = some (s, p)) :
    ∃ more, p = .going more ∧ more.all Act.isSure = true := by
  cases a with
  | deliver | cycle | removeSource | removeDrain | removeSources | removeDrains => simp [Act.isSure] at ha
  | sleep due | await tasks =>
    simp only [act] at h
    split at h
    · obtain ⟨rfl, rfl⟩ := Prod.mk.inj (Option.some.inj h)
      exact ⟨[], rfl, rfl⟩
    · simp at h
  | stopSource x | joinSource x | forgetDiscovery k | closeSink sink | forgetCollector k =>
    obtain ⟨rfl, rfl⟩ := Prod.mk.inj (Option.some.inj h)
    exact ⟨_, rfl, rfl⟩
  | closeDrain d =>
    obtain ⟨rfl, rfl⟩ := Prod.mk.inj (Option.some.inj h)
    refine ⟨_, rfl, ?_⟩
    simp only [closeDrain]
    split
    · rfl
    · split <;> rfl

theorem turn_sure (ht : t.isSure = true) (h : r.turn me t = some (s, t')) : t'.isSure = true := by
  cases t with
  | call acts tolerant =>
    cases acts with
    | nil =>
      obtain ⟨rfl, rfl⟩ := Prod.mk.inj (Option.some.inj h)
      rfl
    | cons a rest =>
      obtain ⟨ha, hrest⟩ : a.isSure = true ∧ rest.all Act.isSure = true := by simpa [Task.isSure] using ht
      obtain ⟨p, hact, rfl⟩ := callStep_cons h
      obtain ⟨more, rfl, hmore⟩ := act_sure ha hact
      simp [Act.Progress.task, Task.isSure, hmore, hrest]
  | ended o => simp [turn] at h
  | _ => simp [Task.isSure] at ht

theorem Sure.move {m : Move} (h : Sure r me) (hn : Numbered r) (hm : r.move m = some s) : Sure s me := by
  obtain ⟨t, ht, hsure⟩ := h
  by_cases htu : m = .turn me
  · subst htu
    simp only [Relay.move, step, ht, Option.bind_some] at hm
    obtain ⟨⟨s', t'⟩, htu, rfl⟩ := Option.map_eq_some_iff.mp hm
    exact ⟨t', get?_setTask .., turn_sure hsure htu⟩
  · refine ⟨t, task_kept hn hm ht htu ?_, hsure⟩
    rintro n aborted next stage rfl
    simp [Task.isSure] at hsure

theorem Numbered.forget (h : Numbered r) (me : Nat) : Numbered { r with tasks := r.tasks.erase me } where
  __ := h
  tasks := by
    intro i hi
    rw [Dict.get?_erase]
    split
    · rfl
    · exact h.tasks i hi
  task := Dict.forall_erase h.task
  staff w n c x ht := h.staff w n c x (Dict.of_get?_erase ht).2

theorem abandon_sure (ht : r.tasks.get? me = some t) (hsure : t.isSure = true) :
    r.abandon me = { r with tasks := r.tasks.erase me } := by
  simp only [abandon, ht]
  split
  · rename_i he
    simp [Option.some.inj he, Task.isSure, Act.isSure] at hsure
  · rename_i he
    simp [Option.some.inj he, Task.isSure, Act.isSure] at hsure
  · rfl

section Deleting

variable {a : Act} (m : Means) (ha : q.deletion? = some a)

include ha

theorem deletion_turn (ht : r.tasks.get? me = some (.call [a] false)) :
    (∃ f, q.check m r = .error f ∧ r.step me = some (r.setTask me (.ended (.error f)))) ∨
      q.check m r = .ok () ∧ ∃ s, r.step me = some s ∧ Sure s me := by
  cases q with
  | addDiscovery | addPool | addPoolWith => simp [Request.deletion?] at ha
  | deleteDiscovery k =>
    obtain rfl := Option.some.inj ha
    simp only [Request.check, step, ht, Option.bind_some, turn, callStep, act, removeSource]
    cases hx : r.registry.sources.get? k with
    | none => exact .inl ⟨_, rfl, rfl⟩
    | some x => exact .inr ⟨rfl, _, rfl, _, get?_setTask .., rfl⟩
  | deletePool k =>
    obtain rfl := Option.some.inj ha
    simp only [Request.check, step, ht, Option.bind_some, turn, callStep, act, removeDrain]
    cases hd : r.registry.drains.get? k with
    | none => exact .inl ⟨_, rfl, rfl⟩
    | some d => exact .inr ⟨rfl, _, rfl, _, get?_setTask .., rfl⟩

omit m in
theorem deletion_numbered (hn : Numbered r) : Numbered (r.call [a] false).1 := by
  cases q with
  | addDiscovery | addPool | addPoolWith => simp [Request.deletion?] at ha
  | deleteDiscovery k =>
    obtain rfl := Option.some.inj ha
    exact hn.call (.removeDiscovery k)
  | deletePool k =>
    obtain rfl := Option.some.inj ha
    exact hn.call (.removePool k)

theorem call_turn (r : Relay) :
    (∃ f, q.check m r = .error f ∧ (r.call [a] false).1.step r.fresh =
      some ((r.call [a] false).1.setTask r.fresh (.ended (.error f)))) ∨
    q.check m r = .ok () ∧ ∃ s, (r.call [a] false).1.step r.fresh = some s ∧ Sure s r.fresh := by
  have hcheck : q.check m (r.call [a] false).1 = q.check m r := by cases q <;> rfl
  exact hcheck ▸ deletion_turn m ha (get?_setTask ..)

theorem await_refused (hn : Numbered r) (hf : q.check m r = .error f) :
    await a r = .error f { r with fresh := r.fresh + 1 } := by
  let u := (r.call [a] false).1
  let v := u.setTask r.fresh (.ended (.error f))
  have hfirst : u.step r.fresh = some v := by
    rcases call_turn m ha r with ⟨f', hf', hs⟩ | ⟨hok, -⟩
    · obtain rfl := Except.error.inj (hf'.symm.trans hf)
      exact hs
    · exact absurd (hok.symm.trans hf) (by simp)
  have hlast : v.step r.fresh = none := by simp [step, v, get?_setTask, turn]
  have hended : v.hasEnded r.fresh = true := by simp [hasEnded, v, get?_setTask, Task.isEnded]
  have hturns : runTask patience u r.fresh = v := by
    obtain ⟨n, hn⟩ := patience_add_two
    rw [hn, runTask, hfirst]
    dsimp only
    rw [runTask, hlast]
  have hfinish : finishBy patience u r.fresh (r.clock + longest) = v := by
    obtain ⟨n, hn⟩ := patience_add_two
    rw [hn, finishBy, hturns]
    simp only [hended, if_true]
  have htasks : v.tasks.erase r.fresh = r.tasks := by
    apply Dict.ext
    intro w
    by_cases hw : w = r.fresh
    · rw [hw, hn.tasks r.fresh (Nat.le_refl _)]
      simp
    · simp [v, u, call, spawn, setTask, hw]
  rw [await, perform_eq hfinish, get?_setTask]
  dsimp only
  rw [htasks]
  rfl

theorem await_allowed (hn : Numbered r) (hok : q.check m r = .ok ()) :
    ∃ s, await a r = .ok () s ∧ Numbered s := by
  let u := (r.call [a] false).1
  have hu : Numbered u := deletion_numbered ha hn
  obtain ⟨v, hfirst, hv⟩ : ∃ v, u.step r.fresh = some v ∧ Sure v r.fresh := by
    rcases call_turn m ha r with ⟨f, hf, -⟩ | ⟨-, hs⟩
    · exact absurd (hf.symm.trans hok) (by simp)
    · exact hs
  -- Another task could take the key away before the call has had its turn; from then on nothing can go wrong.
  let P (x : Relay) : Prop := Numbered x ∧ Sure x r.fresh
  have hstep (x : Relay) (w : Nat) (y : Relay) (h : P x) (hy : x.step w = some y) : P y :=
    ⟨(h.1.step hy).1, h.2.move (m := .turn w) h.1 hy⟩
  have hclock (x : Relay) (time : Nat) (h : P x) : P (x.setClock time) := ⟨{ h.1 with }, h.2⟩
  have hturns : P (runTask patience u r.fresh) := by
    obtain ⟨n, hn⟩ := patience_add_two
    rw [hn, runTask, hfirst]
    exact runTask_keeps hstep (n + 1) ⟨(hu.step hfirst).1, hv⟩
  obtain ⟨hs, t, ht, hsure⟩ : P (finishBy patience u r.fresh (r.clock + longest)) := by
    obtain ⟨n, hn⟩ := patience_add_two
    rw [hn]
    exact finishBy_keeps_after hstep hclock (n + 1) _ (fun x => finishBy_keeps hstep hclock (n + 1) _) hturns
  refine ⟨_, ?_, hs.forget r.fresh⟩
  cases t with
  | ended o =>
    cases o with
    | error f => simp [Task.isSure] at hsure
    | ok status => rw [await, perform_eq rfl, ht]
  | call acts tolerant => rw [await, perform_eq rfl, ht, ← abandon_sure ht hsure]
  | _ => simp [Task.isSure] at hsure

end Deleting

/-! Requests -/

/-- Something was to be done if it stands up to a check: it is refused, with next to nothing spent, or it is
done. -/
inductive Decided (Q : Relay → Prop) (r : Relay) (e : Except Failure Unit) :
    EStateM.Result Failure Relay Unit → Prop
  | refused {f : Failure} {s : Relay} (he : e = .error f) (hs : Spent r s) : Decided Q r e (.error f s)
  | answered {s : Relay} (he : e = .ok ()) (hq : Q s) : Decided Q r e (.ok () s)

section Deciding

variable {Q : Relay → Prop} {e e' : Except Failure Unit} {act : Manage Unit}

theorem Decided.require (hs : Spent r s) (h : Decided Q r e' (act s)) :
    Decided Q r (do e; e') ((do Relay.require e; act : Manage Unit) s) := by
  cases e with
  | error f => exact .refused rfl hs
  | ok => exact h

theorem Decided.last (hs : Spent r s) (h : Decided Q r (.ok ()) (act s)) :
    Decided Q r e ((do Relay.require e; act : Manage Unit) s) := by
  cases e with
  | error f => exact .refused rfl hs
  | ok => exact h

end Deciding

def Request.Backed (r : Relay) (q : Request) : Prop := ∀ sink, q.sink? = some sink → sink < r.fresh

theorem setUpPool_decided {Q : Prop} (m : Means) (k : Key) (spec : Collector.Spec) {sink : Nat} (hs : Spent r s)
    (hn : Numbered s) (hk : Q → sink < s.fresh) :
    Decided (fun s => Q → Numbered s) r (m.prepare spec.tls) (setUpPool m.prepare k spec sink s) := by
  refine .last hs (.answered rfl fun hq => ?_)
  have hp := hn.addPool k spec (hk hq) s.reportEvery
  exact Numbered.installDrain (d := .pool s.fresh) hp (Nat.lt_succ_self s.fresh) k spec.bufferSize

theorem await_decided {a : Act} {Q : Prop} (m : Means) (hn : Numbered r) (ha : q.deletion? = some a) :
    Decided (fun s => Q → Numbered s) r (q.check m r) (await a r) := by
  cases hc : q.check m r with
  | error f =>
    rw [await_refused m ha hn hc]
    exact .refused rfl .number
  | ok =>
    obtain ⟨s, hs, hns⟩ := await_allowed m ha hn hc
    rw [hs]
    exact .answered rfl fun _ => hns

theorem run_decided (m : Means) (q : Request) (hn : Numbered r) :
    Decided (fun s => q.Backed r → Numbered s) r (q.check m r) (q.run m r) := by
  cases q with
  | addDiscovery k spec =>
    refine .last .nothing (.answered rfl fun _ => ?_)
    exact hn.move (m := .addDiscovery k spec true r.reportEvery.isSome) rfl
  | addPool k spec =>
    refine .require .nothing (.require .nothing ?_)
    exact setUpPool_decided m k spec (.sink _) (hn.addOutlet _) fun _ => Nat.lt_succ_self r.fresh
  | addPoolWith k spec sink =>
    exact .require .nothing (setUpPool_decided m k spec .nothing hn fun hb => hb sink rfl)
  | deleteDiscovery k => exact await_decided m hn rfl
  | deletePool k => exact await_decided m hn rfl

theorem run_refused {m : Means} (hn : Numbered r) (h : q.run m r = .error f s) :
    q.check m r = .error f ∧ Spent r s := by
  have hd := run_decided m q hn
  rw [h] at hd
  cases hd with
  | refused he hs => exact ⟨he, hs⟩

theorem refused_run {m : Means} (hn : Numbered r) (h : q.check m r = .error f) :
    ∃ s, q.run m r = .error f s := by
  have hd := run_decided m q hn
  rw [h] at hd
  cases hx : q.run m r with
  | ok u s =>
    rw [hx] at hd
    cases hd with
    | answered he => cases he
  | error f' s =>
    rw [hx] at hd
    cases hd with
    | refused he =>
      obtain rfl := Except.error.inj he
      exact ⟨s, rfl⟩

/-- What a relay can be when requests are made to it, one after the other, in between anything else that can
happen. -/
inductive Managed : Relay → Prop
  | start (inventory : Cluster.Inventory) (network : Network) (reportEvery : Option Nat) :
      Managed (start inventory network reportEvery)
  | move {r s : Relay} (m : Move) (h : Managed r) (hm : r.move m = some s) : Managed s
  | sink {r : Relay} (accepts : Nat → Bool) (h : Managed r) : Managed (r.addOutlet accepts).1
  | answered {r s : Relay} (m : Means) (q : Request) (h : Managed r) (hb : q.Backed r)
      (hq : q.run m r = .ok () s) : Managed s
  | refused {r s : Relay} (m : Means) (q : Request) (f : Failure) (h : Managed r) (hq : q.run m r = .error f s) :
      Managed s

theorem Managed.numbered (h : Managed r) : Numbered r := by
  induction h with
  | start inventory network every => exact .start inventory network every
  | move m _ hm ih => exact ih.move hm
  | sink accepts _ ih => exact ih.addOutlet accepts
  | answered m q _ hb hq ih =>
    have hd := run_decided m q ih
    rw [hq] at hd
    cases hd with
    | answered _ hn => exact hn hb
  | refused m q f _ hq ih => exact (run_refused ih hq).2.numbered ih

theorem Managed.replay {ms : List Move} (h : Managed r) (hs : r.replay ms = some s) : Managed s :=
  replay_keeps (fun _ m _ h hm => .move m h hm) hs h

/-! Deletions in the middle of everything -/

inductive Standing (r : Relay) (me : Nat) (a : Act) : Prop
  | asking (ht : r.tasks.get? me = some (.call [a] false))
  | sure (h : Sure r me)
  | failed (f : Failure) (ht : r.tasks.get? me = some (.ended (.error f)))

theorem Standing.move {a : Act} {v : Move} (m : Means) (h : Standing r me a) (hn : Numbered r)
    (ha : q.deletion? = some a) (hm : r.move v = some s) : Standing s me a := by
  cases h with
  | asking ht =>
    by_cases htu : v = .turn me
    · subst htu
      rcases deletion_turn m ha ht with ⟨f, -, hs⟩ | ⟨-, s', hs, hsure⟩
      · obtain rfl := Option.some.inj (hs.symm.trans hm)
        exact .failed f (get?_setTask ..)
      · obtain rfl := Option.some.inj (hs.symm.trans hm)
        exact .sure hsure
    · exact .asking (task_kept hn hm ht htu (by simp))
  | sure h => exact .sure (h.move hn hm)
  | failed f ht => exact .failed f (ended_kept hn hm ht)

theorem Sure.replay {ms : List Move} (h : Sure r me) (hn : Numbered r) (hs : r.replay ms = some s) : Sure s me :=
  (replay_keeps (P := fun r => Numbered r ∧ Sure r me) (fun _ _ _ h hm => ⟨h.1.move hm, h.2.move h.1 hm⟩)
    hs ⟨hn, h⟩).2

theorem Sure.not_failed (h : Sure r me) (ht : r.tasks.get? me = some (.ended (.error f))) : False := by
  obtain ⟨t, ht', hsure⟩ := h
  obtain rfl := Option.some.inj (ht'.symm.trans ht)
  simp [Task.isSure] at hsure

theorem failing_turn {a : Act} {before after : List Move} {u : Relay} (m : Means) (hn : Numbered r)
    (ha : q.deletion? = some a) (hu : (r.call [a] false).1.replay before = some u)
    (hs : u.replay (.turn r.fresh :: after) = some s) (ht : s.tasks.get? r.fresh = some (.ended (.error f))) :
    q.check m u = .error f ∧ u.move (.turn r.fresh) = some (u.setTask r.fresh (.ended (.error f))) := by
  obtain ⟨hnu, hstanding⟩ : Numbered u ∧ Standing u r.fresh a :=
    replay_keeps (P := fun x => Numbered x ∧ Standing x r.fresh a)
      (fun _ _ _ h hm => ⟨h.1.move hm, h.2.move m h.1 ha hm⟩) hu
        ⟨deletion_numbered ha hn, .asking (get?_setTask ..)⟩
  obtain ⟨v, hv, hs⟩ := Option.bind_eq_some_iff.mp hs
  have hnv : Numbered v := hnu.move hv
  cases hstanding with
  | asking hask =>
    rcases deletion_turn m ha hask with ⟨f', hf, hstep⟩ | ⟨-, v', hstep, hsure⟩
    · obtain rfl := Option.some.inj (hstep.symm.trans hv)
      have hlast : s.tasks.get? r.fresh = some (.ended (.error f')) :=
        (replay_keeps (P := fun x => Numbered x ∧ x.tasks.get? r.fresh = some (.ended (.error f')))
          (fun _ _ _ h hm => ⟨h.1.move hm, ended_kept h.1 hm h.2⟩) hs ⟨hnv, get?_setTask ..⟩).2
      obtain rfl : f' = f := by simpa using hlast.symm.trans ht
      exact ⟨hf, hstep⟩
    · obtain rfl := Option.some.inj (hstep.symm.trans hv)
      exact ((hsure.replay hnv hs).not_failed ht).elim
  | sure hsure => exact (((hsure.move hnu hv).replay hnv hs).not_failed ht).elim
  | failed f' hf => simp [Relay.move, step, hf, turn] at hv

/-- A request fails if there is something to be said against it, and then all that there was is as it was. So it is
with a deletion among other things that happen: when it fails, nothing but the failure comes of its turn. -/
theorem Managed.refused_untouched (hr : Managed r) (m : Means) (q : Request) :
    (∀ f, (∃ s, q.run m r = .error f s) ↔ q.check m r = .error f) ∧
    (∀ f s, q.run m r = .error f s → Untouched r s) ∧
    ∀ a f before after u s, q.deletion? = some a → (r.call [a] false).1.replay before = some u →
      u.replay (.turn r.fresh :: after) = some s → s.tasks.get? r.fresh = some (.ended (.error f)) →
      q.check m u = .error f ∧ u.move (.turn r.fresh) = some (u.setTask r.fresh (.ended (.error f))) := by
  refine ⟨fun f => ⟨?_, refused_run hr.numbered⟩, ?_, ?_⟩
  · rintro ⟨s, hs⟩
    exact (run_refused hr.numbered hs).1
  · intro f s hs
    exact (run_refused hr.numbered hs).2.untouched
  · intro a f before after u s ha hu hs ht
    exact failing_turn m hr.numbered ha hu hs ht

def failure? (r : Relay) (me : Nat) : Option Failure :=
  match r.tasks.get? me with
  | some (.ended (.error f)) => some f
  | _ => none

theorem failure?_eq_some (h : r.failure? me = some f) : r.tasks.get? me = some (.ended (.error f)) := by
  rw [failure?] at h
  split at h
  · rename_i ht
    rw [ht, Option.some.inj h]
  · simp at h

def loaded : List Move :=
  let k : Key := ⟨"monitoring", "pool"⟩
  [.addPool k .standard 1 (fun _ => true) none,
    .call (.send k [{ Target.ofAnnotations .empty "" with ip := "10.0.0.1" }] none), .turn 4, .turn 4]

def guarded : Collector.Spec := { Collector.Spec.standard with tls := some ⟨some "ca.pem", none, none, false⟩ }

theorem refused_untouched_loaded :
    let k : Key := ⟨"monitoring", "pool"⟩
    let f : Failure := .io "No such file or directory (os error 2)"
    let f' : Failure := .notFound "discovery monitoring/pool"
    ∃ r s, (start .empty .silent none).replay loaded = some r ∧ r.registry.drains.get? k = some (.pool 1) ∧
      (r.channel 2).queue.map (·.ip) = ["10.0.0.1"] ∧
      (Request.addPool k guarded).run (.of (Collector.Files.kit fun _ => false) fun _ => true) r =
        .error f s ∧ Untouched r s ∧
      (r.call [.removeSource k] false).1.move (.turn r.fresh) =
        some ((r.call [.removeSource k] false).1.setTask r.fresh (.ended (.error f'))) := by
  intro k f f'
  have facts : ((start .empty .silent none).replay loaded).bind (fun r =>
      ((r.call [.removeSource k] false).1.replay [.turn r.fresh]).map fun s =>
        decide (r.registry.drains.get? k = some (.pool 1) ∧ (r.channel 2).queue.map (·.ip) = ["10.0.0.1"] ∧
          s.failure? r.fresh = some f')) = some true := by decide +kernel
  obtain ⟨r, hr, facts⟩ := Option.bind_eq_some_iff.mp facts
  obtain ⟨u, hu, facts⟩ := Option.map_eq_some_iff.mp facts
  obtain ⟨hdrain, hqueue, hfailed⟩ := of_decide_eq_true facts
  have hm : Managed r := (Managed.start ..).replay hr
  have hvalid : guarded.validate = .ok () := if_pos (by decide +kernel)
  have hcheck : (Request.addPool k guarded).check (.of (Collector.Files.kit fun _ => false) fun _ => true) r =
      .error f := by
    rw [Request.check, hvalid]
    rfl
  obtain ⟨hiff, huntouched, -⟩ :=
    hm.refused_untouched (.of (Collector.Files.kit fun _ => false) fun _ => true) (.addPool k guarded)
  obtain ⟨s, hs⟩ := (hiff f).mpr hcheck
  obtain ⟨-, -, hturn⟩ :=
    hm.refused_untouched (.of (Collector.Files.kit fun _ => false) fun _ => true) (.deleteDiscovery k)
  exact ⟨r, s, hr, hdrain, hqueue, hs, huntouched f s hs,
    (hturn _ f' [] [] _ u rfl rfl hu (failure?_eq_some hfailed)).2⟩

end ScrapeRelay.Relay

import ScrapeRelay.Proofs.Relay.Sealing

/-!
The crew of a pool: the workers that it starts with. As long as a pool is registered or is being closed it has
its whole crew, and none of them goes before the channel is sealed.
-/

namespace ScrapeRelay.Relay

variable {r s : Relay} {me n c : Nat} {t t' : Task} {k : Key}

/-- The workers of a pool on a channel. One that has ended has found the channel sealed. -/
structure Crew (r : Relay) (n c : Nat) (ws : List Nat) : Prop where
  anyone : ws ≠ []
  member : ∀ w ∈ ws, (∃ x, r.tasks.get? w = some (.worker n c x)) ∨
    (∃ o, r.tasks.get? w = some (.ended o)) ∧ Sealed r c

theorem task_kept {m : Move} {w : Nat} (hn : Numbered r) (hm : r.move m = some s) (ht : r.tasks.get? w = some t)
    (hne : m ≠ .turn w) (hrep : ∀ n aborted next stage, t ≠ .reporter n aborted next stage) :
    s.tasks.get? w = some t := by
  have quiet {s : Relay} (hq : Quiet r s) : s.tasks.get? w = some t := by
    have h := hq.tasks w
    rw [ht] at h
    generalize s.tasks.get? w = u? at h ⊢
    cases h with
    | kept ha => exact ha.kept hrep
  by_cases htu : ∃ me, m = .turn me
  · obtain ⟨me, rfl⟩ := htu
    have hw : w ≠ me := by
      rintro rfl
      exact hne rfl
    obtain ⟨u, u', s', hu, -, hd, rfl⟩ := step_did hn hm
    have hs' : s'.tasks.get? w = some t := by
      cases hd with
      | nothing hq => exact quiet hq
      | delivered d _ hs => exact delivered_tasks hs ▸ ht
      | worked n c x p _ _ hs => exact Numbered.worked_tasks hs ▸ ht
    simpa [setTask, hw] using hs'
  · exact quiet (move_quiet hn hm fun me he => htu ⟨me, he⟩)

theorem ended_kept {m : Move} {w : Nat} {o : Outcome} (hn : Numbered r) (hm : r.move m = some s)
    (ht : r.tasks.get? w = some (.ended o)) : s.tasks.get? w = some (.ended o) := by
  refine task_kept hn hm ht ?_ (by simp)
  rintro rfl
  simp [move, step, ht, turn] at hm

namespace Crew

theorem step {w : Nat} {x : Worker} (hn : Numbered r) (hs : r.sign? (.pool n) = some false)
    (ht : r.tasks.get? w = some (.worker n c x)) (hm : r.step w = some s) :
    (∃ x, s.tasks.get? w = some (.worker n c x)) ∨ (∃ o, s.tasks.get? w = some (.ended o)) ∧
    Sealed s c := by
  obtain ⟨p, hp, hf⟩ := Option.map_eq_some_iff.mp hs
  have hnew (u : Task) (r : Relay) : (r.setTask w u).tasks.get? w = some u := by simp [setTask]
  obtain ⟨t, t', s', ht', -, hd, rfl⟩ := step_did hn hm
  obtain rfl := Option.some.inj (ht.symm.trans ht')
  cases hd with
  | nothing _ _ hw => simp [Task.isWorker] at hw
  | delivered _ _ _ hw => simp [Task.isWorker] at hw
  | worked n' c' x' p' he hp' hwork =>
    obtain ⟨rfl, rfl, rfl⟩ := Task.worker.inj he
    obtain rfl := Option.some.inj (hp.symm.trans hp')
    cases hwork with
    | leaves hw inLine h =>
      rw [hf] at h
      obtain ⟨htake, hsend⟩ := h.resolve_left (by simp)
      exact .inr ⟨⟨_, hnew _ _⟩, ((Sealed.of_look (hn.post ht rfl) htake hsend).step hn hm).1⟩
    | _ => exact .inl ⟨_, hnew _ _⟩

theorem move {m : Move} {ws : List Nat} (h : Crew r n c ws) (hn : Numbered r) (hs : r.sign? (.pool n) = some false)
    (hm : r.move m = some s) : Crew s n c ws := by
  refine ⟨h.anyone, fun w hw => ?_⟩
  rcases h.member w hw with ⟨x, ht⟩ | ⟨⟨o, ht⟩, hc⟩
  · by_cases htu : m = .turn w
    · subst htu
      exact step hn hs ht hm
    · exact .inl ⟨x, task_kept hn hm ht htu (by simp)⟩
  · exact .inr ⟨⟨o, ended_kept hn hm ht⟩, (hc.move hn hm).1⟩

theorem all_ended {ws : List Nat} (h : Crew r n c ws) (he : ws.all r.hasEnded = true) : Sealed r c := by
  obtain ⟨w, hw⟩ := List.exists_mem_of_ne_nil ws h.anyone
  rcases h.member w hw with ⟨x, ht⟩ | ⟨-, hc⟩
  · have := List.all_eq_true.mp he w hw
    simp [hasEnded, ht, Task.isEnded] at this
  · exact hc

end Crew

/-! The crew of a new pool -/

theorem retireDrain_life {m : Member} (h : Numbered r) (hst : ∀ m, Stage r m)
    (hl : r.life m = ⟨0, 0, 0⟩) (k : Key) : (r.retireDrain k).life m = r.life m := by
  cases hd : r.registry.drains.get? k with
  | none => simp only [retireDrain, hd]
  | some old =>
    apply (retireDrain_ends h (hst old.member) hd).1.life_of_ne
    rintro rfl
    have := (hst old.member).life (o := .drain k) (by simp [Owns, hd])
    rw [hl] at this
    simp at this

theorem retireDrain_worker {w : Nat} {x : Worker} (k : Key)
    (ht : (r.retireDrain k).tasks.get? w = some (.worker n c x)) : r.tasks.get? w = some (.worker n c x) := by
  rw [retireDrain] at ht
  split at ht
  · rename_i d _
    cases d with
    | probe i keeps => exact ht
    | pool i =>
      cases hp : r.pools.get? i with
      | none => simpa only [stopDrain, setRegistry, hp] using ht
      | some p =>
        cases hs : p.stopped with
        | true => simpa [stopDrain, setRegistry, hp, hs] using ht
        | false =>
          rw [@stopDrain_pool (r.setRegistry (r.withoutDrain k)) i p hp hs] at ht
          rcases Dict.of_get?_insert ht with ⟨-, ht⟩ | ⟨-, ht⟩
          · cases ht
          · have ha := abortReporter_alike (r.setRegistry (r.withoutDrain k)) p w
            rw [ht] at ha
            exact ha.eq_of_ne (by simp)
  · exact ht

theorem installDrain_crew {p : Pool} (h : Numbered r) (hst : ∀ m, Stage r m)
    (hl : r.life (.pool n) = ⟨0, 0, 0⟩) (hp : r.pools.get? n = some p) (hw : p.workers = []) (k : Key)
    (size : Nat) :
    ∃ q a, (r.installDrain k (.pool n) size).pools.get? n = some q ∧ q.workers = List.range' a p.size ∧
    r.fresh ≤ a ∧
      (∀ w ∈ q.workers, (r.installDrain k (.pool n) size).tasks.get? w =
        some (.worker n ((r.registry.channels.get? k).getD r.fresh) .idle)) ∧
      ∀ w n' c x, w ∉ q.workers → (r.installDrain k (.pool n) size).tasks.get? w = some (.worker n' c x) →
        r.tasks.get? w = some (.worker n' c x) := by
  rw [installDrain_eq, ← openChannel_number r k size]
  have ho := (h.openChannel k size).1
  have hso := Steady.openChannel r k size
  have hq := (Quiet.openChannel h k size).trans (.retireDrain ho k)
  have hworker {w n c : Nat} {x : Worker} (ht : ((r.openChannel k size).1.retireDrain k).tasks.get? w =
      some (.worker n c x)) : r.tasks.get? w = some (.worker n c x) :=
        openChannel_tasks r k size ▸ retireDrain_worker k ht
  have hlife := (retireDrain_life ho (fun m => (hst m).steady hso) ((hso.life _).trans hl) k).trans (hso.life _)
  generalize (r.openChannel k size).2 = c
  generalize (r.openChannel k size).1.retireDrain k = r' at hq hlife hworker
  obtain ⟨p', hp', -, -, hsize, -⟩ := hq.pools n p hp
  have hw' : p'.workers = [] := by
    have := hq.crews n p hp hlife
    rwa [hp', Option.map_some, hw, Option.some_inj] at this
  rw [startDrain_pool c hp']
  have hcrew : (r'.manned p').workers = List.range' r'.fresh p.size := by
    rw [manned, hw', List.nil_append, crew, hsize]
  refine ⟨r'.manned p', r'.fresh, ?_, hcrew, hq.fresh, ?_, ?_⟩
  · simp [registerDrain, setRegistry]
  · intro w hw
    change (r'.mustered n c p').get? w = _
    rw [get?_mustered, crew, hsize, if_pos (hcrew ▸ hw)]
  · intro w n' i x hw ht
    change (r'.mustered n c p').get? w = _ at ht
    rw [get?_mustered, crew, hsize, if_neg (hcrew ▸ hw)] at ht
    split at ht
    · simp at ht
    · exact hworker ht

theorem putPool_crew (h : Numbered r) (hst : ∀ m, Stage r m) (k : Key) (spec : Collector.Spec) (size : Nat)
    (accepts : Nat → Bool) (every : Option Nat) :
    ∃ q a, (r.putPool k spec size accepts every).pools.get? (r.fresh + 1) = some q ∧
      q.workers = List.range' a (max 1 spec.workers) ∧ r.fresh ≤ a ∧
      (∀ w ∈ q.workers, (r.putPool k spec size accepts every).tasks.get? w =
        some (.worker (r.fresh + 1) ((r.registry.channels.get? k).getD (r.fresh + 2)) .idle)) ∧
      ∀ w n' c x, w ∉ q.workers →
        (r.putPool k spec size accepts every).tasks.get? w = some (.worker n' c x) →
          r.tasks.get? w = some (.worker n' c x) := by
  have hs := Steady.addPool h k spec accepts every
  have hn := (h.addOutlet accepts).addPool k spec (Nat.lt_succ_self r.fresh) every
  have hl := (hs.life (.pool (r.fresh + 1))).trans (life_fresh h (Nat.le_succ _))
  obtain ⟨q, a, hq, hw, ha, hworkers, hothers⟩ := installDrain_crew hn (fun m => (hst m).steady hs) hl
    (by simp [addPool, setPool, addOutlet]; rfl) rfl k size
  exact ⟨q, a, hq, hw, Nat.le_trans (Nat.le_add_right _ 2) ha, hworkers, hothers⟩

/-! Crews that stay -/

theorem move_workers {m : Move} {p : Pool} (hn : Numbered r) (hm : r.move m = some s)
    (hp : r.pools.get? n = some p) (hl : s.life (.pool n) = r.life (.pool n)) :
    ∃ q, s.pools.get? n = some q ∧ q.workers = p.workers := by
  apply Option.map_eq_some_iff.mp
  by_cases htu : ∃ me, m = .turn me
  · obtain ⟨me, rfl⟩ := htu
    obtain ⟨t, t', s', ht, -, hd, rfl⟩ := step_did hn hm
    have apart (ha : Apart r s') : (s'.pools.get? n).map (·.workers) = some p.workers := by
      rw [ha.crews, hp, Option.map_some]
    cases hd with
    | nothing hq => exact hq.crews n p hp hl
    | delivered d hd hs => exact apart (.sent (.inr ⟨d, hd, hs⟩))
    | worked n' c w p' _ hp' hs => exact apart (.worked hp' hs)
  · exact (move_quiet hn hm fun me he => htu ⟨me, he⟩).crews n p hp hl

def Posted (r : Relay) : Prop :=
  ∀ k n, r.registry.drains.get? k = some (.pool n) →
    ∃ c p, r.registry.channels.get? k = some c ∧ r.pools.get? n = some p ∧ Crew r n c p.workers

theorem Posted.kept {m : Move} (h : Posted r) (hr : Reachable r) (hm : r.move m = some s)
    (hd : r.registry.drains.get? k = some (.pool n)) (hd' : s.registry.drains.get? k = some (.pool n))
    (hc : s.registry.channels.get? k = r.registry.channels.get? k) :
    ∃ c p, s.registry.channels.get? k = some c ∧ s.pools.get? n = some p ∧ Crew s n c p.workers := by
  have ho : Owns r (.drain k) (.pool n) := by simp [Owns, hd, Drain.member]
  have ho' : Owns s (.drain k) (.pool n) := by simp [Owns, hd', Drain.member]
  have hs := hr.later (.after m .same hm)
  obtain ⟨c, p, hk, hp, hw⟩ := h k n hd
  obtain ⟨q, hq, hqw⟩ :=
    move_workers hr.numbered hm hp (((hs.stage _).life ho').trans ((hr.stage _).life ho).symm)
  exact ⟨c, q, hc.trans hk, hq, hqw ▸ hw.move hr.numbered ((hr.stage _).sign ho) hm⟩

theorem Posted.move {m : Move} (h : Posted r) (hr : Reachable r) (hm : r.move m = some s) : Posted s := by
  intro k n hd
  have hreg := move_registry hr.numbered hm
  have kept (hd' : r.registry.drains.get? k = some (.pool n))
      (hc : s.registry.channels.get? k = r.registry.channels.get? k) := h.kept hr hm hd' hd hc
  cases he : r.entered? m with
  | none =>
    rw [he, Option.elim_none] at hreg
    exact kept (hreg ▸ hd) (by rw [hreg])
  | some e =>
    rw [he, Option.elim_some] at hreg
    cases e with
    | source k' x => exact kept (by simpa [hreg, Registry.enter] using hd) (hreg ▸ rfl)
    | noSource k' => exact kept (by simpa [hreg, Registry.enter] using hd) (hreg ▸ rfl)
    | noDrain k' =>
      have hk : k ≠ k' := by
        rintro rfl
        simp [hreg, Registry.enter] at hd
      exact kept (by simpa [hreg, Registry.enter, hk] using hd) (by simp [hreg, Registry.enter, hk])
    | drain k' d room staff =>
      by_cases hk : k = k'
      · subst hk
        obtain rfl : d = .pool n := by simpa [hreg, Registry.enter] using hd
        rcases entered?_drain he with ⟨spec, accepts, every, rfl, hn, rfl⟩ | ⟨_, _, hn, _⟩
        · obtain rfl := Drain.pool.inj hn
          obtain rfl := Option.some.inj hm
          obtain ⟨q, a, hq, hw, -, hworkers, -⟩ := putPool_crew hr.numbered hr.stage k spec room accepts every
          refine ⟨_, q, ?_, hq, ?_, fun w hw => .inl ⟨_, hworkers w hw⟩⟩
          · simp only [hreg, Registry.enter, withChannel_same]
            rfl
          · rw [hw]
            simp
        · simp at hn
      · exact kept (by simpa [hreg, Registry.enter, hk] using hd)
          (by simp [hreg, Registry.enter, withChannel_other hk])

theorem Reachable.posted (h : Reachable r) : Posted r := by
  refine h.holds ?_ fun _ _ _ hr h hm => h.move hr hm
  intro inventory network every k n hd
  simp [start, Registry.empty] at hd

end ScrapeRelay.Relay

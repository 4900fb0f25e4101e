import ScrapeRelay.Proofs.Relay.Removals
import ScrapeRelay.Proofs.Relay.Voices

/-!
Reporters of pools. A reporter is written down in its pool until it is aborted, which happens when the pool is
replaced or closed; it heeds that when it sleeps, so it still reports what it had begun to report.
-/

namespace ScrapeRelay.Relay

def watch? (r : Relay) (n : Nat) : Option (Key × Option Nat) := (r.pools.get? n).map fun p => (p.key, p.reporter)

def Task.aborted : Task → Task
  | .reporter n _ next stage => .reporter n true next stage
  | t => t

inductive Reshaped (r : Relay) (t : Task) (s : Relay) : Prop
  | kept (htasks : s.tasks = r.tasks) (hpools : ∀ n, s.watch? n = r.watch? n)
      (hno : ∀ n rest tolerant, t = .call (.closeDrain (.pool n) :: rest) tolerant → r.pools.get? n = none)
  | closes {n : Nat} {p : Pool} {rest : List Act} {tolerant : Bool}
      (ht : t = .call (.closeDrain (.pool n) :: rest) tolerant) (hp : r.pools.get? n = some p)
      (htasks : s.tasks = (r.abortReporter p).tasks)
      (hpools : ∀ i, s.watch? i = if i = n then some (p.key, none) else r.watch? i)

variable {r s : Relay} {me n c w : Nat} {t t' : Task} {k : Key} {acts : List Act}
  {tolerant aborted : Bool} {m : Move}
  {stage : Reporter} {p : Pool} {d : Drain}

theorem get?_abortReporter (r : Relay) (p : Pool) (w : Nat) : (r.abortReporter p).tasks.get? w =
    if p.reporter = some w then (r.tasks.get? w).map Task.aborted else r.tasks.get? w := by
  rw [abortReporter]
  split
  · rename_i v n aborted next stage ht
    obtain ⟨v', hv, hm⟩ := Option.bind_eq_some_iff.mp ht
    obtain ⟨u, hu, he⟩ := Option.map_eq_some_iff.mp hm
    obtain ⟨rfl, rfl⟩ := Prod.mk.inj he
    simp only [setTask, Dict.get?_insert]
    by_cases hw : w = v'
    · subst hw
      simp [hv, hu, Task.aborted]
    · have hne : p.reporter ≠ some w := by
        rw [hv]
        exact fun h => hw (Option.some.inj h).symm
      simp [hw, hne]
  · rename_i hno
    split
    · rename_i hw
      cases hu : r.tasks.get? w with
      | none => rfl
      | some t =>
        cases t with
        | reporter n aborted next stage => exact absurd (by simp [hw, hu]) (hno w n aborted next stage)
        | _ => rfl
    · rfl

theorem watch?_eq (h : s.pools = r.pools) (n : Nat) : s.watch? n = r.watch? n := by rw [watch?, watch?, h]

theorem watch?_setStatus (hp : r.pools.get? n = some p) (status : Collector.Status) (i : Nat) :
    (r.setStatus n p status).watch? i = r.watch? i := by
  simp only [watch?, setStatus, setPool, Dict.get?_insert]
  split
  · rename_i hi
    rw [hi, hp]
    rfl
  · rfl

/-! Turns -/

theorem Sent.pools {d? : Option Delivery} (h : Sent r me d? s) : s.pools = r.pools := by
  rcases h with ⟨scouts, board, remarks, -, -⟩ | ⟨d, -, hd⟩
  · rfl
  · cases hd <;> rfl

theorem worked_watch {x : Worker} (hp : r.pools.get? n = some p) (h : Worked r me n c p x s t') (i : Nat) :
    s.watch? i = r.watch? i := by
  cases h with
  | takes hw inLine hs =>
    obtain ⟨-, rfl⟩ := take?_eq hs
    cases inLine <;> rfl
  | waits => split <;> rfl
  | leaves hw inLine => cases inLine <;> rfl
  | misses => exact watch?_setStatus hp _ i
  | ships =>
    rw [ship]
    split
    · exact watch?_setStatus hp _ i
    · exact watch?_setStatus hp _ i
    · exact watch?_setStatus (r := (r.offerPayload me p.sink _).1) hp _ i
  | scrapes | ends => rfl

theorem Called.reshapes (h : Called r me tolerant acts s t') : Reshaped r (.call acts tolerant) s := by
  cases h with
  | sends rest hd =>
    have hs := (deliver_sent hd).1
    exact .kept (Apart.sent hs).tasks (watch?_eq hs.pools) (by simp)
  | cycles rest hn hc =>
    have hs := (cycle_sent hn hc).1
    exact .kept (Apart.sent hs).tasks (watch?_eq hs.pools) (by simp)
  | stops x rest => exact .kept (stopSource_tasks ..) (watch?_eq (stopSource_unconcerned r x).pools) (by simp)
  | joins x rest =>
    obtain ⟨scouts, hj⟩ := joinSource_eq r x
    rw [hj]
    exact .kept rfl (fun _ => rfl) (by simp)
  | forgets k rest => split <;> exact .kept rfl (fun _ => rfl) (by simp)
  | drops k rest => split <;> exact .kept rfl (fun _ => rfl) (by simp)
  | closes d rest =>
    cases d with
    | probe n keeps =>
      rw [closeDrain_probe]
      exact .kept rfl (fun _ => rfl) (by simp)
    | pool n =>
      cases hp : r.pools.get? n with
      | none =>
        simp only [closeDrain, hp]
        refine .kept rfl (fun _ => rfl) ?_
        rintro n' rest' tolerant' he
        cases he
        exact hp
      | some p =>
        rw [closeDrain_pool hp]
        refine .closes rfl hp rfl fun i => ?_
        simp only [watch?, Dict.get?_insert]
        split <;> rfl
  | _ => exact .kept rfl (fun _ => rfl) (by simp)

theorem Acted.reshapes (h : Acted r me t s t') : Reshaped r t s := by
  cases h with
  | works hp hw => exact .kept (Numbered.worked_tasks hw) (worked_watch hp hw) (by simp)
  | measures aborted next stage stage' status hp => exact .kept rfl (watch?_setStatus hp _) (by simp)
  | reports n aborted next k status =>
    unfold reportCollector
    dsimp only
    split <;> exact .kept rfl (fun _ => rfl) (by simp)
  | cycles due hn hc =>
    have hs := (cycle_sent hn hc).1
    exact .kept (Apart.sent hs).tasks (watch?_eq hs.pools) (by simp)
  | announces hn =>
    rw [writeStatus]
    split
    · unfold reportDiscovery
      dsimp only
      split <;> exact .kept rfl (fun _ => rfl) (by simp)
    · exact .kept rfl (fun _ => rfl) (by simp)
  | calls h => exact h.reshapes
  | _ => exact .kept rfl (fun _ => rfl) (by simp)

/-! Reporters, seen without their times -/

def Task.reporter? : Task → Option (Nat × Bool × Reporter)
  | .reporter n aborted _ stage => some (n, aborted, stage)
  | _ => none

def silence : Nat × Bool × Reporter → Nat × Bool × Reporter
  | (n, _, stage) => (n, true, stage)

def reporterAt? (r : Relay) (k : Key) : Option Nat :=
  match r.registry.drains.get? k with
  | some (.pool n) => (r.watch? n).bind (·.2)
  | _ => none

theorem aborted_reporter? (t : Task) : t.aborted.reporter? = t.reporter?.map silence := by
  cases t <;> rfl

theorem view_abortReporter (r : Relay) (p : Pool) (w : Nat) : (r.abortReporter p).view Task.reporter? w =
    if p.reporter = some w then (r.view Task.reporter? w).map silence else r.view Task.reporter? w := by
  rw [view, get?_abortReporter]
  split
  · cases ht : r.tasks.get? w with
    | none => simp [view, ht]
    | some t => simp [view, ht, aborted_reporter?]
  · rfl

theorem view_reporter {x : Nat × Bool × Reporter} : r.view Task.reporter? w = some x ↔
    ∃ next, r.tasks.get? w = some (.reporter x.1 x.2.1 next x.2.2) := by
  rw [view, Option.bind_eq_some_iff]
  constructor
  · rintro ⟨t, ht, hx⟩
    cases t with
    | reporter n aborted next stage =>
      obtain rfl := Option.some.inj hx
      exact ⟨next, ht⟩
    | _ => cases hx
  · rintro ⟨next, ht⟩
    exact ⟨_, ht, rfl⟩

theorem retireDrain_reporter (hn : Numbered r) (hst : ∀ m, Stage r m) (k : Key) (w : Nat) :
    (r.retireDrain k).view Task.reporter? w =
      if r.reporterAt? k = some w then (r.view Task.reporter? w).map silence else r.view Task.reporter? w := by
  cases hd : r.registry.drains.get? k with
  | none => simp [retireDrain, reporterAt?, hd]
  | some d =>
    cases d with
    | probe n keeps =>
      simp only [retireDrain, reporterAt?, hd]
      rfl
    | pool n =>
      obtain ⟨p, hp, hs⟩ :=
        Option.map_eq_some_iff.mp ((hst (.pool n)).sign (o := .drain k) (by simp [Owns, hd, Drain.member]))
      have hat : r.reporterAt? k = p.reporter := by simp [reporterAt?, hd, watch?, hp]
      rw [retireDrain_pool hd hp hs, hat, ← view_abortReporter]
      simp only [view, Dict.get?_insert]
      split
      · rename_i hw
        have hnone : (r.abortReporter p).view Task.reporter? r.fresh = none := by
          simp [view_abortReporter, view_fresh hn (Nat.le_refl r.fresh)]
        rw [hw]
        exact hnone.symm
      · rfl

theorem retireDrain_watch (hst : ∀ m, Stage r m) (k : Key) (i : Nat) : (r.retireDrain k).watch? i =
    if r.registry.drains.get? k = some (.pool i) then (r.watch? i).map fun x => (x.1, none) else r.watch? i := by
  cases hd : r.registry.drains.get? k with
  | none => simp [retireDrain, hd]
  | some d =>
    cases d with
    | probe n keeps =>
      simp only [retireDrain, hd]
      rfl
    | pool n =>
      obtain ⟨p, hp, hs⟩ :=
        Option.map_eq_some_iff.mp ((hst (.pool n)).sign (o := .drain k) (by simp [Owns, hd, Drain.member]))
      rw [retireDrain_pool hd hp hs]
      simp only [watch?, Dict.get?_insert, Option.some.injEq, Drain.pool.injEq]
      by_cases hi : i = n
      · subst hi
        simp [hp]
      · simp [hi, Ne.symm hi]

theorem startDrain_watch (r : Relay) (c : Nat) (d : Drain) (i : Nat) (hd : d ≠ .pool i) :
    (r.startDrain c d).watch? i = r.watch? i := by
  cases d with
  | probe => rfl
  | pool n =>
    have hi : i ≠ n := fun h => hd (h ▸ rfl)
    cases hp : r.pools.get? n with
    | none => simp only [startDrain, hp]
    | some p =>
      rw [startDrain_pool c hp]
      simp [watch?, hi]

theorem startDrain_reporter (r : Relay) (c : Nat) (d : Drain)
    (hw : (r.startDrain c d).view Task.reporter? w = some (n, aborted, stage)) :
    r.view Task.reporter? w = some (n, aborted, stage) ∨
      d = .pool n ∧ (r.startDrain c d).watch? n = (r.watch? n).map fun x => (x.1, some w) := by
  cases d with
  | probe => exact .inl hw
  | pool i =>
    cases hp : r.pools.get? i with
    | none =>
      simp only [startDrain, hp] at hw
      exact .inl hw
    | some p =>
      rw [startDrain_pool c hp] at hw ⊢
      rw [view] at hw
      simp only [get?_mustered] at hw
      split at hw
      · cases hw
      · split at hw
        · rename_i hnew
          obtain ⟨rfl, -, -⟩ : i = n ∧ false = aborted ∧ Reporter.sleeping = stage := by
            simpa [Task.reporter?] using hw
          right
          simp [watch?, hp, manned, hnew.1, hnew.2]
        · exact .inl hw

/-! Who watches over reporters -/

/-- A reporter that is not aborted is written down in its pool, which is registered or which a call is about to
close. -/
def Watched (r : Relay) : Prop := ∀ w n stage, r.view Task.reporter? w = some (n, false, stage) →
  ∃ k, r.watch? n = some (k, some w) ∧
    (r.registry.drains.get? k = some (.pool n) ∨ ∃ v, r.view Task.head? v = some (.closeDrain (.pool n)))

theorem Acted.reporter (h : Acted r me t s t') (ht : t'.reporter? = some (n, aborted, stage)) :
    ∃ stage', t.reporter? = some (n, aborted, stage') := by
  cases h with
  | works hp hw => rcases Numbered.worked_task hw with ⟨w', rfl⟩ | rfl <;> cases ht
  | waits h =>
    rcases h with rfl | ⟨next', stage', rfl⟩
    · cases ht
    · obtain ⟨rfl, rfl, -⟩ : _ ∧ _ ∧ _ := by simpa [Task.reporter?] using ht
      exact ⟨_, rfl⟩
  | measures | reports =>
    obtain ⟨rfl, rfl, -⟩ : _ ∧ _ ∧ _ := by simpa [Task.reporter?] using ht
    exact ⟨_, rfl⟩
  | cycles due hn hc h => rcases h with ⟨_, rfl⟩ | rfl <;> cases ht
  | calls h =>
    rcases h.tolerance with ⟨acts', rfl⟩ | he
    · cases ht
    · cases t' <;> simp_all [Task.isEnded, Task.reporter?]
  | _ => cases ht

theorem step_drain (hn : Numbered r) (hm : r.step me = some s) (hk : r.registry.drains.get? k = some d) :
    s.registry.drains.get? k = some d ∨ s.view Task.head? me = some (.closeDrain d) := by
  cases step_strikes hn hm with
  | nothing hreg | source _ _ _ hreg => exact .inl (by simpa [hreg, Registry.enter] using hk)
  | @drain k' _ rest tolerant hd ht ht' hreg =>
    by_cases hne : k = k'
    · subst hne
      obtain rfl := Option.some.inj (hk.symm.trans hd)
      exact .inr (view_head.mpr ⟨_, _, ht'⟩)
    · exact .inl (by simpa [hreg, Registry.enter, hne] using hk)

theorem head_kept {a : Act} (hn : Numbered r) (hm : r.move m = some s) (hne : m ≠ .turn w)
    (hw : r.view Task.head? w = some a) : s.view Task.head? w = some a := by
  obtain ⟨rest, tolerant, ht⟩ := view_head.mp hw
  exact view_head.mpr ⟨rest, tolerant, task_kept hn hm ht hne (by simp)⟩

theorem step_watch (hn : Numbered r) (hm : r.step me = some s) (n : Nat) : s.watch? n = r.watch? n ∨
    (∃ rest tolerant, r.tasks.get? me = some (.call (.closeDrain (.pool n) :: rest) tolerant)) ∧
      s.watch? n = (r.watch? n).map fun x => (x.1, none) := by
  obtain ⟨t, t', s', ht, ha, -, rfl⟩ := step_acted hn hm
  change s'.watch? n = _ ∨ _ ∧ s'.watch? n = _
  cases ha.reshapes with
  | kept htasks hpools => exact .inl (hpools n)
  | @closes i p rest tolerant he hp htasks hpools =>
    rw [hpools]
    split
    · rename_i hi
      subst hi
      exact .inr ⟨⟨rest, tolerant, he ▸ ht⟩, by rw [watch?, hp]; rfl⟩
    · exact .inl rfl

theorem step_key (hn : Numbered r) (hm : r.step me = some s) (n : Nat) :
    (s.watch? n).map (·.1) = (r.watch? n).map (·.1) := by
  rcases step_watch hn hm n with hw | ⟨-, hw⟩
  · rw [hw]
  · rw [hw, Option.map_map]
    rfl

theorem step_reporter (hn : Numbered r) (hm : r.step me = some s)
    (hw : s.view Task.reporter? w = some (n, aborted, stage)) :
    ∃ before stage', r.view Task.reporter? w = some (n, before, stage') ∧
    (before = true → aborted = true) ∧
      (w ≠ me → stage' = stage) ∧
      (r.view Task.head? me = some (.closeDrain (.pool n)) → (r.watch? n).bind (·.2) = some w →
        aborted = true) := by
  obtain ⟨t, t', s', ht, ha, -, rfl⟩ := step_acted hn hm
  rw [view_setTask] at hw
  split at hw
  · rename_i hme
    subst hme
    obtain ⟨stage', hr⟩ := ha.reporter hw
    refine ⟨aborted, stage', (view_eq ht).trans hr, id, fun hne => absurd rfl hne, fun hh => ?_⟩
    obtain ⟨rest, tolerant, hc⟩ := view_head.mp hh
    obtain rfl := Option.some.inj (ht.symm.trans hc)
    cases hr
  · cases ha.reshapes with
    | kept htasks hpools hno =>
      rw [view, htasks] at hw
      refine ⟨aborted, stage, hw, id, fun _ => rfl, fun hh hat => ?_⟩
      obtain ⟨rest, tolerant, hc⟩ := view_head.mp hh
      simp [watch?, hno n rest tolerant (Option.some.inj (ht.symm.trans hc))] at hat
    | @closes i p rest tolerant he hp htasks hpools =>
      rw [view, htasks] at hw
      change (r.abortReporter p).view Task.reporter? w = _ at hw
      rw [view_abortReporter] at hw
      split at hw
      · obtain ⟨⟨n', before, stage'⟩, hx, hs⟩ := Option.map_eq_some_iff.mp hw
        obtain ⟨rfl, rfl, rfl⟩ : n' = n ∧ true = aborted ∧ stage' = stage := by simpa [silence] using hs
        exact ⟨before, stage', hx, fun _ => rfl, fun _ => rfl, fun _ _ => rfl⟩
      · rename_i hother
        refine ⟨aborted, stage, hw, id, fun _ => rfl, fun hh hat => ?_⟩
        rw [view_eq ht, he] at hh
        obtain rfl : i = n := Drain.pool.inj (Act.closeDrain.inj (Option.some.inj hh))
        exact absurd (by simpa [watch?, hp] using hat) hother

theorem Watched.step (h : Watched r) (hn : Numbered r) (hm : r.step me = some s) : Watched s := by
  intro w n stage hw
  obtain ⟨before, stage', hv, hb, -, hclosed⟩ := step_reporter hn hm hw
  obtain rfl : before = false := Bool.eq_false_iff.mpr fun h => Bool.false_ne_true (hb h)
  obtain ⟨k, hk, hreg⟩ := h w n stage' hv
  have unclosed : r.view Task.head? me ≠ some (.closeDrain (.pool n)) :=
    fun hh => Bool.false_ne_true (hclosed hh (by rw [hk]; rfl))
  have hkept : s.watch? n = r.watch? n := by
    rcases step_watch hn hm n with hw | ⟨hc, -⟩
    · exact hw
    · exact absurd (view_head.mpr hc) unclosed
  refine ⟨k, hkept.trans hk, ?_⟩
  rcases hreg with hreg | ⟨v, hv⟩
  · exact (step_drain hn hm hreg).imp_right fun hh => ⟨me, hh⟩
  · refine .inr ⟨v, head_kept hn (m := .turn me) hm ?_ hv⟩
    rintro ⟨⟩
    exact unclosed hv

/-! Installs -/

theorem install_drains (hn : Numbered r) (hm : r.move m = some s) (htu : ∀ me, m ≠ .turn me)
    (hk : m.drainKey? ≠ some k) : s.registry.drains.get? k = r.registry.drains.get? k := by
  rw [move_registry hn hm]
  cases m with
  | turn me => exact absurd rfl (htu me)
  | addPool k' | addProbeDrain k' =>
    have hne : k ≠ k' := by
      rintro rfl
      exact hk rfl
    exact (Dict.get?_insert ..).trans (if_neg hne)
  | _ => rfl

section InstallDrain

variable {size : Nat}

theorem openChannel_shared (r : Relay) (k : Key) (size : Nat) : (r.openChannel k size).1.tasks = r.tasks ∧
    (r.openChannel k size).1.pools = r.pools ∧ (r.openChannel k size).1.registry.drains = r.registry.drains := by
  rw [openChannel]
  split <;> exact ⟨rfl, rfl, rfl⟩

theorem installDrain_reporter (hn : Numbered r) (hst : ∀ m, Stage r m)
    (hw : (r.installDrain k d size).view Task.reporter? w = some (n, aborted, stage)) :
    d = .pool n ∧ (r.installDrain k d size).watch? n = (r.watch? n).map (fun x => (x.1, some w)) ∨
      ∃ before, r.view Task.reporter? w = some (n, before, stage) ∧ (before = true → aborted = true) ∧
        (aborted = false → r.reporterAt? k ≠ some w) := by
  obtain ⟨htasks, hpools, hdrains⟩ := openChannel_shared r k size
  have hsto (m : Member) := (hst m).steady (Steady.openChannel r k size)
  have hat : (r.openChannel k size).1.reporterAt? k = r.reporterAt? k := by
    simp only [reporterAt?, hdrains, watch?_eq hpools]
  have hview (w : Nat) : (r.openChannel k size).1.view Task.reporter? w = r.view Task.reporter? w := by
    rw [view, htasks, view]
  rw [installDrain_eq] at hw ⊢
  rcases startDrain_reporter _ _ d hw with hold | ⟨rfl, hwatch⟩
  · rw [retireDrain_reporter (hn.openChannel k size).1 hsto, hat, hview] at hold
    right
    split at hold
    · obtain ⟨⟨n', before, stage'⟩, hx, he⟩ := Option.map_eq_some_iff.mp hold
      obtain ⟨rfl, rfl, rfl⟩ : n' = n ∧ true = aborted ∧ stage' = stage := by simpa [silence] using he
      exact ⟨before, hx, fun _ => rfl, by simp⟩
    · rename_i hne
      exact ⟨aborted, hold, id, fun _ => hne⟩
  · left
    refine ⟨rfl, hwatch.trans ?_⟩
    rw [retireDrain_watch hsto, hdrains, watch?_eq hpools]
    split
    · rw [Option.map_map]
      rfl
    · rfl

theorem installDrain_watch (hst : ∀ m, Stage r m) (hd : d ≠ .pool n) : (r.installDrain k d size).watch? n =
    if r.registry.drains.get? k = some (.pool n) then (r.watch? n).map fun x => (x.1, none) else r.watch? n := by
  obtain ⟨-, hpools, hdrains⟩ := openChannel_shared r k size
  have hsto (m : Member) := (hst m).steady (Steady.openChannel r k size)
  rw [installDrain_eq]
  refine (startDrain_watch _ _ d n hd).trans ?_
  rw [retireDrain_watch hsto, hdrains, watch?_eq hpools]

end InstallDrain

theorem spawn_reporter {x : Nat × Bool × Reporter} (ht : t.reporter? = none)
    (hw : (r.spawn t).view Task.reporter? w = some x) : r.view Task.reporter? w = some x := by
  simp only [view, spawn, setTask, Dict.get?_insert] at hw
  split at hw
  · simp [ht] at hw
  · exact hw

theorem installSource_reporter {x : Nat × Bool × Reporter} (y : Source)
    (hw : (r.installSource k y).view Task.reporter? w = some x) : r.view Task.reporter? w = some x := by
  rw [installSource_eq] at hw
  have hr : (r.retireSource k).tasks = r.tasks := by
    rw [retireSource]
    split
    · exact stopSource_tasks ..
    · rfl
  have hview : (r.retireSource k).view Task.reporter? w = r.view Task.reporter? w := by rw [view, hr, view]
  rw [← hview]
  change ((r.retireSource k).startSource y).view Task.reporter? w = _ at hw
  generalize r.retireSource k = r' at hw ⊢
  cases y with
  | probe i collectors => exact hw
  | scout i =>
    cases hs : r'.scouts.get? i with
    | none => simpa only [startSource, hs] using hw
    | some sc =>
      obtain ⟨sc', -, he⟩ := startSource_scout hs
      rw [he] at hw
      refine spawn_reporter (t := r'.starting i sc) ?_ hw
      rw [starting]
      split <;> rfl

theorem addPool_watch (r : Relay) (k : Key) (spec : Collector.Spec) (o : Nat) (every : Option Nat) (i : Nat) :
    (r.addPool k spec o every).1.watch? i = if i = r.fresh then some (k, none) else r.watch? i := by
  simp only [watch?, addPool, setPool, Dict.get?_insert]
  split <;> rfl

theorem install_watch (hr : Reachable r) (hm : r.move m = some s) (htu : ∀ me, m ≠ .turn me)
    (hlt : n < r.fresh) :
    s.watch? n = if m.drainKey?.bind r.registry.drains.get? = some (.pool n) then (r.watch? n).map
      fun x => (x.1, none)
      else r.watch? n := by
  have hn := hr.numbered
  cases m with
  | turn me => exact absurd rfl (htu me)
  | addDiscovery k spec connected reports =>
    obtain rfl := Option.some.inj hm
    exact watch?_eq (installSource_unconcerned (r.addScout k spec connected reports).1 k (.scout r.fresh)).pools n
  | addProbeSource k collectors =>
    obtain rfl := Option.some.inj hm
    exact watch?_eq (installSource_unconcerned r.addProbe.1 k (.probe r.fresh collectors)).pools n
  | addPool k spec size accepts every =>
    obtain rfl := Option.some.inj hm
    have hs := Steady.addPool hn k spec accepts every
    have hne : Drain.pool (r.fresh + 1) ≠ .pool n := fun h => by cases h; omega
    have hold : ((r.addOutlet accepts).1.addPool k spec r.fresh every).1.watch? n = r.watch? n :=
      (addPool_watch _ k spec r.fresh every n).trans (if_neg (by
        change n ≠ r.fresh + 1
        omega))
    rw [← hold]
    exact installDrain_watch (fun i => (hr.stage i).steady hs) hne
  | addProbeDrain k size keeps =>
    obtain rfl := Option.some.inj hm
    have hne : Drain.probe r.fresh keeps ≠ .pool n := by simp
    exact installDrain_watch (r := r.addProbe.1) (fun i => (hr.stage i).steady (Steady.addProbe r)) hne
  | call | surround | elapse =>
    obtain rfl := Option.some.inj hm
    rfl

theorem install_reporter (hr : Reachable r) (hm : r.move m = some s) (htu : ∀ me, m ≠ .turn me)
    (hw : s.view Task.reporter? w = some (n, aborted, stage)) :
    (∃ k, m.drainKey? = some k ∧ s.registry.drains.get? k = some (.pool n) ∧
      s.watch? n = some (k, some w)) ∨
      ∃ before, r.view Task.reporter? w = some (n, before, stage) ∧ (before = true → aborted = true) ∧
        (aborted = false → ∀ k, m.drainKey? = some k → r.reporterAt? k ≠ some w) := by
  have hn := hr.numbered
  have same (hv : r.view Task.reporter? w = some (n, aborted, stage)) (hk : m.drainKey? = none) :
      ∃ before, r.view Task.reporter? w = some (n, before, stage) ∧ (before = true → aborted = true) ∧
        (aborted = false → ∀ k, m.drainKey? = some k → r.reporterAt? k ≠ some w) :=
    ⟨aborted, hv, id, fun _ k h => by simp [hk] at h⟩
  cases m with
  | turn me => exact absurd rfl (htu me)
  | addDiscovery k spec connected reports =>
    obtain rfl := Option.some.inj hm
    have hold := installSource_reporter (r := (r.addScout k spec connected reports).1) (.scout r.fresh) hw
    exact .inr (same hold rfl)
  | addProbeSource k collectors =>
    obtain rfl := Option.some.inj hm
    have hold := installSource_reporter (r := r.addProbe.1) (.probe r.fresh collectors) hw
    exact .inr (same hold rfl)
  | addPool k spec size accepts every =>
    have hreg := move_registry hn hm
    obtain rfl := Option.some.inj hm
    have hs := Steady.addPool hn k spec accepts every
    have hp := (hn.addOutlet accepts).addPool k spec (Nat.lt_succ_self r.fresh) every
    rcases installDrain_reporter hp (fun i => (hr.stage i).steady hs) hw with
      ⟨hd, hwatch⟩ | ⟨before, hv, hb, ha⟩
    · obtain rfl := Drain.pool.inj hd
      refine .inl ⟨k, rfl, ?_, hwatch.trans ?_⟩
      · rw [hreg]
        simp [entered?, Registry.enter]
      · have hnew := (addPool_watch (r.addOutlet accepts).1 k spec r.fresh every (r.fresh + 1)).trans (if_pos rfl)
        exact congrArg _ hnew
    · refine .inr ⟨before, hv, hb, ?_⟩
      rintro hno _ ⟨⟩ hat
      refine ha hno ?_
      rw [← hat]
      simp only [reporterAt?]
      change (match r.registry.drains.get? k with | some (.pool n) => _ | _ => _) = _
      split
      · rename_i i hd
        have hlt : i < r.fresh := hn.drains k _ hd
        have hne : i ≠ r.fresh + 1 := by omega
        have hold := (addPool_watch (r.addOutlet accepts).1 k spec r.fresh every i).trans (if_neg hne)
        exact congrArg (Option.bind · _) hold
      · rfl
  | addProbeDrain k size keeps =>
    obtain rfl := Option.some.inj hm
    have hs := Steady.addProbe r
    rcases installDrain_reporter (r := r.addProbe.1) hn.addProbe (fun i => (hr.stage i).steady hs) hw with
      ⟨hd, -⟩ | ⟨before, hv, hb, ha⟩
    · cases hd
    · refine .inr ⟨before, hv, hb, ?_⟩
      rintro hno _ ⟨⟩
      exact ha hno
  | call c =>
    obtain rfl := Option.some.inj hm
    exact .inr (same (spawn_reporter rfl hw) rfl)
  | surround | elapse =>
    obtain rfl := Option.some.inj hm
    exact .inr (same hw rfl)

theorem watch?_lt (hn : Numbered r) {x : Key × Option Nat} (h : r.watch? n = some x) : n < r.fresh := by
  obtain ⟨p, hp, -⟩ := Option.map_eq_some_iff.mp h
  exact hn.pools.lt hp

theorem Watched.install (h : Watched r) (hr : Reachable r) (hm : r.move m = some s)
    (htu : ∀ me, m ≠ .turn me) : Watched s := by
  intro w n stage hw
  have hn := hr.numbered
  rcases install_reporter hr hm htu hw with ⟨k, -, hreg, hwatch⟩ | ⟨before, hv, hb, ha⟩
  · exact ⟨k, hwatch, .inl hreg⟩
  · obtain rfl : before = false := Bool.eq_false_iff.mpr fun h => Bool.false_ne_true (hb h)
    obtain ⟨k, hk, hreg⟩ := h w n stage hv
    -- the pool is not the one that is replaced, whose reporter is aborted
    have hnot : m.drainKey?.bind r.registry.drains.get? ≠ some (.pool n) := by
      intro hd
      obtain ⟨k', hk', hd⟩ := Option.bind_eq_some_iff.mp hd
      exact ha rfl k' hk' (by simp [reporterAt?, hd, hk])
    refine ⟨k, by rw [install_watch hr hm htu (watch?_lt hn hk), if_neg hnot, hk], ?_⟩
    rcases hreg with hreg | ⟨v, hv⟩
    · refine .inl ((install_drains hn hm htu fun hm => hnot ?_).trans hreg)
      rw [hm]
      exact hreg
    · exact .inr ⟨v, head_kept hn hm (htu v) hv⟩

theorem Reachable.watched (hr : Reachable r) : Watched r := by
  refine hr.holds (P := Watched) ?_ ?_
  · intro inventory network every w n stage hw
    simp [view, start] at hw
  · intro r m s hr h hm
    rcases m.turn_or with ⟨me, rfl⟩ | htu
    · exact h.step hr.numbered hm
    · exact h.install hr hm htu

/-! Whose reporters there are -/

theorem install_key (hr : Reachable r) (hm : r.move m = some s) (htu : ∀ me, m ≠ .turn me)
    (hlt : n < r.fresh) : (s.watch? n).map (·.1) = (r.watch? n).map (·.1) := by
  rw [install_watch hr hm htu hlt]
  split
  · rw [Option.map_map]
    rfl
  · rfl

theorem Reachable.pooled (hr : Reachable r) :
    ∀ w n aborted stage, r.view Task.reporter? w = some (n, aborted, stage) →
    ((r.watch? n).map (·.1)).isSome := by
  refine hr.holds (P := fun r => ∀ w n aborted stage, r.view Task.reporter? w = some (n, aborted, stage) →
    ((r.watch? n).map (·.1)).isSome) ?_ ?_
  · intro inventory network every w n aborted stage hw
    simp [view, start] at hw
  · intro r m s hr h hm w n aborted stage hw
    have hn := hr.numbered
    rcases m.turn_or with ⟨me, rfl⟩ | htu
    · obtain ⟨before, stage', hv, -⟩ := step_reporter hn hm hw
      rw [step_key hn hm]
      exact h w n before stage' hv
    · rcases install_reporter hr hm htu hw with ⟨k, -, -, hwatch⟩ | ⟨before, hv, -⟩
      · simp [hwatch]
      · have hsome := h w n before stage hv
        obtain ⟨x, hx⟩ := Option.isSome_iff_exists.mp (Option.isSome_map ▸ hsome)
        rw [install_key hr hm htu (watch?_lt hn hx)]
        exact hsome

end ScrapeRelay.Relay

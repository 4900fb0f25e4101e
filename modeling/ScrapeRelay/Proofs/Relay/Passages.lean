import ScrapeRelay.Proofs.Relay.Lives

/-!
Every move is a passage: it hands members from one owner to another, and ends and begins lives, in no other
way than those described there.
-/

namespace ScrapeRelay.Relay

variable {r s : Relay} {m : Member} {k : Key} {me n c : Nat} {t t' : Task}

def Event.isLife : Event → Bool
  | .started _ | .stopped _ | .closed _ => true
  | _ => false

theorem lifeIn_apart {events journal : List Event} (h : ∀ e ∈ events, e.isLife = false) (m : Member) :
    lifeIn (events ++ journal) m = lifeIn journal m := by
  have absent {e : Event} (he : e.isLife = true) : events.count e = 0 := by
    apply List.count_eq_zero_of_not_mem
    intro hm
    rw [h e hm] at he
    simp at he
  rw [lifeIn_append, absent rfl, absent rfl, absent rfl]
  simp only [Nat.zero_add]

theorem isLife_remark {e : Event} (h : e.isRemark = true) : e.isLife = false := by
  cases e <;> simp_all [Event.isRemark, Event.isLife]

structure Apart (r s : Relay) : Prop where
  registry : s.registry = r.registry
  tasks : s.tasks = r.tasks
  senders : s.senders = r.senders
  scouts : ∀ n, (s.scouts.get? n).map (fun x => (x.terms, x.stopped)) =
    (r.scouts.get? n).map fun x => (x.terms, x.stopped)
  pools : ∀ n, (s.pools.get? n).map (·.stopped) = (r.pools.get? n).map (·.stopped)
  crews : ∀ n, (s.pools.get? n).map (·.workers) = (r.pools.get? n).map (·.workers)
  journal : ∃ events, s.journal = events ++ r.journal ∧ ∀ e ∈ events, e.isLife = false

namespace Apart

theorem refl (r : Relay) : Apart r r :=
  ⟨rfl, rfl, rfl, fun _ => rfl, fun _ => rfl, fun _ => rfl, [], rfl, by simp⟩

theorem steady (h : Apart r s) : Steady r s := by
  obtain ⟨events, hj, he⟩ := h.journal
  refine ⟨?_, ?_, ?_⟩
  · intro o m
    cases o <;> simp only [Owns, pendingOf, h.registry, h.tasks]
  · intro m
    rw [life, hj, lifeIn_apart he]
    rfl
  · intro m b hb
    cases m with
    | scout n =>
      have hs := congrArg (Option.map Prod.snd) (h.scouts n)
      simp only [Option.map_map, Function.comp_def] at hs
      exact hs.trans hb
    | pool n => exact (h.pools n).trans hb
    | probe n => exact hb

theorem trans {t : Relay} (h : Apart r s) (ht : Apart s t) : Apart r t := by
  obtain ⟨events, hj, he⟩ := h.journal
  obtain ⟨events', hj', he'⟩ := ht.journal
  refine ⟨ht.registry.trans h.registry, ht.tasks.trans h.tasks, ht.senders.trans h.senders,
    fun n => (ht.scouts n).trans (h.scouts n), fun n => (ht.pools n).trans (h.pools n),
    fun n => (ht.crews n).trans (h.crews n), events' ++ events, ?_, ?_⟩
  · rw [hj', hj, List.append_assoc]
  · intro e hm
    exact (List.mem_append.mp hm).elim (he' e) (he e)

theorem aside (h : Aside r s) : Apart r s := by
  obtain ⟨scouts, board, remarks, hs, hr⟩ := h
  exact ⟨rfl, rfl, rfl, hs, fun _ => rfl, fun _ => rfl, remarks, rfl, fun e he => isLife_remark (hr e he)⟩

theorem record (r : Relay) {e : Event} (he : e.isLife = false) : Apart r (r.record e) :=
  ⟨rfl, rfl, rfl, fun _ => rfl, fun _ => rfl, fun _ => rfl, [e], rfl, by simp [he]⟩

theorem setChannel (r : Relay) (c : Nat) (ch : Channel) : Apart r (r.setChannel c ch) :=
  ⟨rfl, rfl, rfl, fun _ => rfl, fun _ => rfl, fun _ => rfl, [], rfl, by simp⟩

theorem setStatus {p : Pool} (hp : r.pools.get? n = some p) (status : Collector.Status) :
    Apart r (r.setStatus n p status) := by
  have same {α : Type} {f : Pool → α} (hf : f { p with status } = f p) (i : Nat) :
      ((r.setStatus n p status).pools.get? i).map f = (r.pools.get? i).map f := by
    simp only [Relay.setStatus, setPool, Dict.get?_insert]
    split
    · rename_i hi
      rw [hi, hp, Option.map_some, Option.map_some, hf]
    · rfl
  exact ⟨rfl, rfl, rfl, fun _ => rfl, same rfl, same rfl, [], rfl, by simp⟩

theorem sent {d? : Option Delivery} (h : Sent r me d? s) : Apart r s := by
  rcases h with h | ⟨d, -, h⟩
  · exact aside h
  · cases h with
    | enters hc ho => exact (setChannel r _ _).trans (record _ rfl)
    | blocks hc ho => exact setChannel r _ _
    | withdraws hc => exact setChannel r _ _

theorem take? {x : Target} {task? : Option Nat} (h : r.take? c task? = some (x, s)) : Apart r s := by
  obtain ⟨-, rfl⟩ := take?_eq h
  refine ⟨rfl, rfl, rfl, fun _ => rfl, fun _ => rfl, fun _ => rfl, .taken c task? x ::
    ((r.channel c).admitted.map fun b => Event.entered c (some b.1) b.2).reverse, rfl, ?_⟩
  intro e he
  rcases List.mem_cons.mp he with rfl | he
  · rfl
  · obtain ⟨b, -, rfl⟩ := List.mem_map.mp (List.mem_reverse.mp he)
    rfl

theorem ship {p : Pool} (hp : r.pools.get? n = some p) (me : Nat) (m : Metric) : Apart r (r.ship me n p m) := by
  cases hf : p.pipeline.fate m with
  | filtered name =>
    simp only [Relay.ship, hf]
    exact setStatus hp _
  | refused problem =>
    simp only [Relay.ship, hf]
    exact setStatus hp _
  | payload text =>
    rw [ship_payload hf]
    have hc : Apart r (r.countOffer p.sink) :=
      ⟨rfl, rfl, rfl, fun _ => rfl, fun _ => rfl, fun _ => rfl, [], rfl, by simp⟩
    refine (hc.trans (record _ ?_)).trans (setStatus ?_ _)
    · rfl
    · exact hp

theorem worked {p : Pool} {w : Worker} (hp : r.pools.get? n = some p) (h : Worked r me n c p w s t') :
    Apart r s := by
  cases h with
  | takes hw inLine ht =>
    cases inLine
    · exact take? ht
    · exact (take? ht).trans (setChannel _ _ _)
  | waits hw ht =>
    split
    · exact refl r
    · exact setChannel r _ _
  | leaves hw inLine ht =>
    cases inLine
    · exact refl r
    · exact setChannel r _ _
  | scrapes ht => exact refl r
  | misses ht => exact (setStatus hp _).trans (record _ rfl)
  | ships => exact ship hp me _
  | ends => exact record r rfl

end Apart

/-! Tasks -/

theorem pendingOf_setTask (r : Relay) (me w : Nat) (t : Task) :
    (r.setTask me t).pendingOf w = if w = me then t.pending else r.pendingOf w := by
  simp only [pendingOf, setTask, Dict.get?_insert]
  split <;> rfl

theorem pendingOf_eq (ht : r.tasks.get? me = some t) : r.pendingOf me = t.pending := by
  rw [pendingOf, ht]
  rfl

theorem Steady.setTask (hp : t.pending = r.pendingOf me) : Steady r (r.setTask me t) := by
  refine ⟨?_, fun _ => rfl, fun m b hb => ?_⟩
  · intro o m
    cases o with
    | source k => exact Iff.rfl
    | drain k => exact Iff.rfl
    | task w =>
      simp only [Owns, pendingOf_setTask]
      split
      · rename_i hw
        rw [hw, hp]
      · exact Iff.rfl
  · cases m <;> exact hb

theorem Steady.spawn (h : Numbered r) (hp : t.pending = []) : Steady r (r.spawn t) := by
  have hf : r.pendingOf r.fresh = [] := by
    rw [pendingOf, h.tasks r.fresh (Nat.le_refl _)]
    rfl
  apply Steady.trans (s := r.setTask r.fresh t) (Steady.setTask (hp.trans hf.symm))
  refine ⟨?_, fun _ => rfl, fun m b hb => ?_⟩
  · intro o m
    cases o <;> exact Iff.rfl
  · cases m <;> exact hb

theorem Steady.turn (h : Apart r s) (ht : r.tasks.get? me = some t) (hp : t'.pending = t.pending) :
    Steady r (s.setTask me t') := by
  refine h.steady.trans (Steady.setTask ?_)
  rw [hp, pendingOf, h.tasks, ht]
  rfl

/-! Turns -/

theorem pending_alike {t? u? : Option Task} (h : Alike t? u?) :
    (u?.map Task.pending).getD [] = (t?.map Task.pending).getD [] := by
  cases h <;> rfl

theorem removesSource_passes {x : Source} {rest : List Act} {tolerant : Bool}
    (hx : r.registry.sources.get? k = some x)
    (ht : r.tasks.get? me = some (.call (.removeSource k :: rest) tolerant))
    (hr : ∀ a ∈ rest, a.isPlain = true) :
    HandsOver r ((r.setRegistry (r.withoutSource k)).setTask me
      (.call (.stopSource x :: .joinSource x :: .forgetDiscovery k :: rest) tolerant)) (.source k) (.task me) := by
  have hb : r.pendingOf me = [] := by rw [pendingOf_eq ht, pending_ordered hr]; rfl
  have ha : (Task.call (.stopSource x :: .joinSource x :: .forgetDiscovery k :: rest) tolerant).pending =
      [x.member] := by
    apply pending_ordered
    simpa [Task.Ordered, Task.acts, Act.isPlain] using hr
  refine ⟨?_, fun _ => rfl, fun m b hb => ?_⟩
  · intro o m
    cases o with
    | source k' =>
      simp only [Owns, setTask, setRegistry, withoutSource, Dict.get?_erase]
      by_cases hk : k' = k <;> simp [hk]
    | drain k' => simp [Owns, setTask, setRegistry, withoutSource]
    | task w =>
      simp only [Owns, pendingOf_setTask]
      by_cases hw : w = me
      · simp [hw, ha, hb, hx, eq_comm]
      · simp [hw, pendingOf, setRegistry]
  · cases m <;> exact hb

theorem removesDrain_passes {d : Drain} {rest : List Act} {tolerant : Bool} {registry : Registry}
    (hd : r.registry.drains.get? k = some d)
    (hreg : registry.drains = r.registry.drains.erase k) (hsrc : registry.sources = r.registry.sources)
    (ht : r.tasks.get? me = some (.call (.removeDrain k :: rest) tolerant))
    (hr : ∀ a ∈ rest, a.isPlain = true) :
    HandsOver r ((r.setRegistry registry).setTask me
      (.call (.closeDrain d :: .forgetCollector k :: rest) tolerant)) (.drain k) (.task me) := by
  have hb : r.pendingOf me = [] := by rw [pendingOf_eq ht, pending_ordered hr]; rfl
  have ha : (Task.call (.closeDrain d :: .forgetCollector k :: rest) tolerant).pending = [d.member] := by
    apply pending_ordered
    simpa [Task.Ordered, Task.acts, Act.isPlain] using hr
  refine ⟨?_, fun _ => rfl, fun m b hb => ?_⟩
  · intro o m
    cases o with
    | source k' => simp [Owns, setTask, setRegistry, hsrc]
    | drain k' =>
      simp only [Owns, setTask, setRegistry, hreg, Dict.get?_erase]
      by_cases hk : k' = k <;> simp [hk]
    | task w =>
      simp only [Owns, pendingOf_setTask]
      by_cases hw : w = me
      · simp [hw, ha, hb, hd, eq_comm]
      · simp [hw, pendingOf, setRegistry]
  · cases m <;> exact hb

theorem Ends.ofTask {e : Event} (hreg : s.registry = r.registry) (hp : r.pendingOf me = [m]) (ht : t.pending = [])
    (how : e = .stopped m ∨ e = .closed m) (htasks : ∀ w, s.pendingOf w = r.pendingOf w)
    (hj : s.journal = e :: r.journal)
    (hs : ∀ m' b, m' ≠ m → r.sign? m' = some b → s.sign? m' = some b) :
    Ends r (s.setTask me t) (.task me) m e := by
  refine ⟨?_, how, ?_, ?_, ?_⟩
  · intro m'
    simp only [Owns, hp, List.mem_singleton]
  · intro o m'
    cases o with
    | source k => simp [Owns, setTask, hreg]
    | drain k => simp [Owns, setTask, hreg]
    | task w =>
      simp only [Owns, pendingOf_setTask, htasks]
      by_cases hw : w = me <;> simp [hw, ht]
  · intro m'
    change lifeIn s.journal m' = _
    rw [hj]
  · intro m' b hm hb
    have := hs m' b hm hb
    cases m' <;> exact this

theorem stopsSource_passes {x : Source} {rest : List Act} {tolerant : Bool} (hst : Stage r x.member)
    (ht : r.tasks.get? me = some (.call (.stopSource x :: rest) tolerant))
    (hr : ∀ a ∈ rest, a.isPlain = true) :
    Ends r ((r.stopSource x).setTask me (.call rest tolerant)) (.task me) x.member (.stopped x.member) := by
  have hp : r.pendingOf me = [x.member] := by rw [pendingOf_eq ht, pending_ordered hr]; rfl
  have hs : r.sign? x.member = some false := hst.sign (o := .task me) (by simp [Owns, hp])
  cases x with
  | probe n collectors =>
    refine .ofTask ?_ hp (pending_plain hr tolerant) (.inl rfl) ?_ rfl ?_
    · rfl
    · exact fun _ => rfl
    · exact fun m' b _ hb => by cases m' <;> exact hb
  | scout n =>
    obtain ⟨sc, hsc, hf⟩ := Option.map_eq_some_iff.mp hs
    rw [stopSource_scout hsc hf]
    refine .ofTask ?_ hp (pending_plain hr tolerant) (.inl rfl) ?_ rfl ?_
    · rfl
    · exact fun _ => rfl
    · intro m' b hm hb
      cases m' with
      | scout i =>
        have hi : i ≠ n := by
          rintro rfl
          exact hm rfl
        simpa [sign?, hi] using hb
      | pool i => exact hb
      | probe i => exact hb

theorem closesDrain_passes {d : Drain} {rest : List Act} {tolerant : Bool} (h : Numbered r)
    (hst : Stage r d.member)
    (ht : r.tasks.get? me = some (.call (.closeDrain d :: rest) tolerant))
    (hr : ∀ a ∈ rest, a.isPlain = true) :
    Ends r ((r.closeDrain d).1.setTask me (.call ((r.closeDrain d).2 ++ rest) tolerant)) (.task me) d.member
      (.closed d.member) := by
  have hp : r.pendingOf me = [d.member] := by rw [pendingOf_eq ht, pending_ordered hr]; rfl
  have hs : r.sign? d.member = some false := hst.sign (o := .task me) (by simp [Owns, hp])
  have hd : d.member.number < r.fresh := by
    apply (h.task me _ ht).2 _
    rw [Numbered.numbers_call hr rfl]
    simp [Act.member?]
  have hrest : ∀ a ∈ (r.closeDrain d).2 ++ rest, a.isPlain = true :=
    fun a ha => (List.mem_append.mp ha).elim ((h.closeDrain hd).2.2 a) (hr a)
  have hpend := pending_plain hrest tolerant
  cases d with
  | probe n keeps =>
    rw [closeDrain_probe] at hpend ⊢
    refine .ofTask ?_ hp hpend (.inr rfl) ?_ rfl ?_
    · rfl
    · exact fun _ => rfl
    · exact fun m' b _ hb => by cases m' <;> exact hb
  | pool n =>
    obtain ⟨p, hpool, -⟩ := Option.map_eq_some_iff.mp hs
    rw [closeDrain_pool hpool] at hpend ⊢
    refine .ofTask ?_ hp hpend (.inr rfl) ?_ rfl ?_
    · rfl
    · exact fun w => pending_alike (abortReporter_alike r p w)
    · intro m' b hm hb
      cases m' with
      | pool i =>
        have hi : i ≠ n := by
          rintro rfl
          exact hm rfl
        simpa [sign?, hi] using hb
      | scout i => exact hb
      | probe i => exact hb

theorem turn_passes (h : Numbered r) (hst : ∀ m, Stage r m) (hs : r.step me = some s) : Passes r s := by
  obtain ⟨t, t', s', ht, -, htu, rfl⟩ := step_turned h hs
  have hto := (h.task me t ht).1
  cases htu with
  | routine hs hr => exact .steady (.turn (.sent hs) ht (hr.pending'.trans hr.pending.symm))
  | works hp hw =>
    refine .steady (.turn (.worked hp hw) ht ?_)
    rcases Numbered.worked_task hw with ⟨w', rfl⟩ | rfl <;> rfl
  | strays hp => exact .steady (.turn (.refl r) ht rfl)
  | measures hp => exact .steady (.turn (.setStatus hp _) ht rfl)
  | removesSource hx => exact .handsOver _ _ (removesSource_passes hx ht hto)
  | removesDrain hd => exact .handsOver _ _ (removesDrain_passes hd rfl rfl ht hto)
  | stopsSource => exact .ends _ _ _ (stopsSource_passes (hst _) ht hto)
  | closesDrain => exact .ends _ _ _ (closesDrain_passes h (hst _) ht hto)

/-! Installing -/

theorem Steady.ofSame (hs : s.registry.sources = r.registry.sources) (hd : s.registry.drains = r.registry.drains)
    (ht : s.tasks = r.tasks) (hj : s.journal = r.journal)
    (hsign : ∀ m b, r.sign? m = some b → s.sign? m = some b) : Steady r s := by
  refine ⟨?_, ?_, hsign⟩
  · intro o m
    cases o <;> simp only [Owns, pendingOf, hs, hd, ht]
  · intro m
    change lifeIn s.journal m = lifeIn r.journal m
    rw [hj]

theorem Steady.addPool (h : Numbered r) (k : Key) (spec : Collector.Spec) (accepts : Nat → Bool)
    (every : Option Nat) : Steady r ((r.addOutlet accepts).1.addPool k spec (r.addOutlet accepts).2 every).1 := by
  refine .ofSame rfl rfl rfl rfl ?_
  intro m b hb
  cases m with
  | pool n =>
    have hn : n ≠ r.fresh + 1 := by
      rintro rfl
      simp [sign?, h.pools (r.fresh + 1) (Nat.le_succ _)] at hb
    change ((r.pools.insert (r.fresh + 1) _).get? n).map _ = some b
    rw [Dict.get?_insert, if_neg hn]
    exact hb
  | scout n => exact hb
  | probe n => exact hb

theorem Steady.addScout (h : Numbered r) (k : Key) (spec : Discovery.Spec) (connected reports : Bool) :
    Steady r (r.addScout k spec connected reports).1 := by
  refine .ofSame rfl rfl rfl rfl ?_
  intro m b hb
  cases m with
  | scout n =>
    have hn : n ≠ r.fresh := by
      rintro rfl
      simp [sign?, h.scouts r.fresh (Nat.le_refl _)] at hb
    change ((r.scouts.insert r.fresh _).get? n).map _ = some b
    rw [Dict.get?_insert, if_neg hn]
    exact hb
  | pool n => exact hb
  | probe n => exact hb

theorem Steady.addProbe (r : Relay) : Steady r r.addProbe.1 :=
  .ofSame rfl rfl rfl rfl fun m _ hb => by cases m <;> exact hb

theorem Steady.openChannel (r : Relay) (k : Key) (size : Nat) : Steady r (r.openChannel k size).1 := by
  rw [Relay.openChannel]
  split
  · exact .refl r
  · exact .ofSame rfl rfl rfl rfl fun m _ hb => by cases m <;> exact hb

theorem Ends.ofDrain {d : Drain} (hd : r.registry.drains.get? k = some d) (hreg : s.registry = r.withoutDrain k)
    (htasks : ∀ w, s.pendingOf w = r.pendingOf w) (hj : s.journal = .stopped d.member :: r.journal)
    (hs : ∀ m' b, m' ≠ d.member → r.sign? m' = some b → s.sign? m' = some b) :
    Ends r s (.drain k) d.member (.stopped d.member) := by
  refine ⟨?_, .inl rfl, ?_, ?_, hs⟩
  · intro m'
    simp [Owns, hd, eq_comm]
  · intro o m'
    cases o with
    | source k' => simp [Owns, hreg, withoutDrain]
    | drain k' =>
      simp only [Owns, hreg, withoutDrain, Dict.get?_erase]
      by_cases hk : k' = k <;> simp [hk]
    | task w => simp [Owns, htasks]
  · intro m'
    change lifeIn s.journal m' = _
    rw [hj]

theorem Ends.ofSource {x : Source} (hx : r.registry.sources.get? k = some x)
    (hreg : s.registry = r.withoutSource k) (htasks : ∀ w, s.pendingOf w = r.pendingOf w)
    (hj : s.journal = .stopped x.member :: r.journal)
    (hs : ∀ m' b, m' ≠ x.member → r.sign? m' = some b → s.sign? m' = some b) :
    Ends r s (.source k) x.member (.stopped x.member) := by
  refine ⟨?_, .inl rfl, ?_, ?_, hs⟩
  · intro m'
    simp [Owns, hx, eq_comm]
  · intro o m'
    cases o with
    | drain k' => simp [Owns, hreg, withoutSource]
    | source k' =>
      simp only [Owns, hreg, withoutSource, Dict.get?_erase]
      by_cases hk : k' = k <;> simp [hk]
    | task w => simp [Owns, htasks]
  · intro m'
    change lifeIn s.journal m' = _
    rw [hj]

theorem retireDrain_registry {d : Drain} (hd : r.registry.drains.get? k = some d) :
    (r.retireDrain k).registry = r.withoutDrain k := by
  simp only [retireDrain, hd, stopDrain_registry]
  rfl

theorem retireSource_registry {x : Source} (hx : r.registry.sources.get? k = some x) :
    (r.retireSource k).registry = r.withoutSource k := by
  simp only [retireSource, hx, stopSource_registry]
  rfl

theorem retireDrain_pool {p : Pool} (hd : r.registry.drains.get? k = some (.pool n)) (hp : r.pools.get? n = some p)
    (hs : p.stopped = false) : r.retireDrain k =
      { r with
        registry := r.withoutDrain k
        pools := r.pools.insert n { p with stopped := true, workers := [], reporter := none }
        tasks := (r.abortReporter p).tasks.insert r.fresh (.retirement p.sink p.workers)
        fresh := r.fresh + 1
        journal := .stopped (.pool n) :: r.journal } := by
  have ha : ((r.setRegistry (r.withoutDrain k)).abortReporter p).tasks = (r.abortReporter p).tasks := by
    simp only [abortReporter, setRegistry]
    split <;> rfl
  simp only [retireDrain, hd]
  rw [@stopDrain_pool (r.setRegistry (r.withoutDrain k)) n p hp hs, ha]
  rfl

theorem retireDrain_ends {d : Drain} (h : Numbered r) (hst : Stage r d.member)
    (hd : r.registry.drains.get? k = some d) :
    Ends r (r.retireDrain k) (.drain k) d.member (.stopped d.member) ∧
      (r.retireDrain k).journal = .stopped d.member :: r.journal := by
  have hs := hst.sign (o := .drain k) (by simp [Owns, hd])
  have hreg := retireDrain_registry hd
  cases d with
  | probe n keeps =>
    have hret : r.retireDrain k = (r.setRegistry (r.withoutDrain k)).stopDrain (.probe n keeps) := by
      simp only [retireDrain, hd]
    rw [hret] at hreg ⊢
    refine ⟨.ofDrain hd hreg (fun _ => rfl) rfl fun m' b _ hb => ?_, rfl⟩
    cases m' <;> exact hb
  | pool n =>
    obtain ⟨p, hp, hf⟩ := Option.map_eq_some_iff.mp hs
    rw [retireDrain_pool hd hp hf] at hreg ⊢
    refine ⟨.ofDrain hd hreg ?_ rfl ?_, rfl⟩
    · intro w
      simp only [pendingOf, Dict.get?_insert]
      split
      · rename_i hw
        rw [hw, h.tasks r.fresh (Nat.le_refl _)]
        rfl
      · exact pending_alike (abortReporter_alike r p w)
    · intro m' b hm hb
      cases m' with
      | pool i =>
        have hi : i ≠ n := by
          rintro rfl
          exact hm rfl
        simpa [sign?, hi] using hb
      | scout i => exact hb
      | probe i => exact hb

theorem retireSource_ends {x : Source} (hst : Stage r x.member) (hx : r.registry.sources.get? k = some x) :
    Ends r (r.retireSource k) (.source k) x.member (.stopped x.member) ∧
      (r.retireSource k).journal = .stopped x.member :: r.journal := by
  have hs := hst.sign (o := .source k) (by simp [Owns, hx])
  have hreg := retireSource_registry hx
  have hret : r.retireSource k = (r.setRegistry (r.withoutSource k)).stopSource x := by
    simp only [retireSource, hx]
  rw [hret] at hreg ⊢
  cases x with
  | probe n collectors =>
    refine ⟨.ofSource hx hreg (fun _ => rfl) rfl fun m' b _ hb => ?_, rfl⟩
    cases m' <;> exact hb
  | scout n =>
    obtain ⟨sc, hsc, hf⟩ := Option.map_eq_some_iff.mp hs
    rw [@stopSource_scout (r.setRegistry (r.withoutSource k)) n sc hsc hf] at hreg ⊢
    refine ⟨.ofSource hx hreg (fun _ => rfl) rfl ?_, rfl⟩
    intro m' b hm hb
    cases m' with
    | scout i =>
      have hi : i ≠ n := by
        rintro rfl
        exact hm rfl
      simpa [sign?, hi, setRegistry] using hb
    | pool i => exact hb
    | probe i => exact hb

theorem Begins.ofDrain {d : Drain} (hk : r.registry.drains.get? k = none) (hl : r.life d.member = ⟨0, 0, 0⟩)
    (hs : r.sign? d.member = some false) (hreg : s.registry = r.registry)
    (htasks : ∀ w, s.pendingOf w = r.pendingOf w)
    (hj : s.journal = .started d.member :: r.journal)
    (hsign : ∀ m b, r.sign? m = some b → s.sign? m = some b) :
    Begins r (s.registerDrain k d) (.drain k) d.member := by
  refine ⟨hl, hs, ?_, ?_, ?_⟩
  · intro o m'
    cases o with
    | source k' => simp [Owns, registerDrain, setRegistry, hreg]
    | drain k' =>
      simp only [Owns, registerDrain, setRegistry, hreg, Dict.get?_insert]
      by_cases hk' : k' = k
      · simp [hk', hk, eq_comm]
      · simp [hk']
    | task w =>
      have hw : (s.registerDrain k d).pendingOf w = r.pendingOf w := htasks w
      simp [Owns, hw]
  · intro m'
    change lifeIn s.journal m' = _
    rw [hj]
  · intro m b hb
    have := hsign m b hb
    cases m <;> exact this

theorem Begins.ofSource {x : Source} (hk : r.registry.sources.get? k = none) (hl : r.life x.member = ⟨0, 0, 0⟩)
    (hs : r.sign? x.member = some false) (hreg : s.registry = r.registry)
    (htasks : ∀ w, s.pendingOf w = r.pendingOf w)
    (hj : s.journal = .started x.member :: r.journal)
    (hsign : ∀ m b, r.sign? m = some b → s.sign? m = some b) :
    Begins r (s.registerSource k x) (.source k) x.member := by
  refine ⟨hl, hs, ?_, ?_, ?_⟩
  · intro o m'
    cases o with
    | drain k' => simp [Owns, registerSource, setRegistry, hreg]
    | source k' =>
      simp only [Owns, registerSource, setRegistry, hreg, Dict.get?_insert]
      by_cases hk' : k' = k
      · simp [hk', hk, eq_comm]
      · simp [hk']
    | task w =>
      have hw : (s.registerSource k x).pendingOf w = r.pendingOf w := htasks w
      simp [Owns, hw]
  · intro m'
    change lifeIn s.journal m' = _
    rw [hj]
  · intro m b hb
    have := hsign m b hb
    cases m <;> exact this

theorem startDrain_begins {d : Drain} (h : Numbered r) (c : Nat) (hk : r.registry.drains.get? k = none)
    (hl : r.life d.member = ⟨0, 0, 0⟩) (hs : r.sign? d.member = some false) :
    Begins r ((r.startDrain c d).registerDrain k d) (.drain k) d.member ∧
      (r.startDrain c d).journal = .started d.member :: r.journal := by
  have hreg := startDrain_registry r c d
  cases d with
  | probe n keeps =>
    refine ⟨.ofDrain hk hl hs hreg (fun _ => rfl) rfl fun m b hb => ?_, rfl⟩
    cases m <;> exact hb
  | pool n =>
    obtain ⟨p, hp, hf⟩ := Option.map_eq_some_iff.mp hs
    rw [startDrain_pool c hp] at hreg ⊢
    refine ⟨.ofDrain hk hl hs hreg ?_ rfl ?_, rfl⟩
    · intro w
      simp only [pendingOf, get?_mustered]
      have free (hw : r.fresh ≤ w) : (r.tasks.get? w).map Task.pending = none := by rw [h.tasks w hw]; rfl
      split
      · rename_i hw
        rw [free (List.mem_range'_1.mp hw).1]
        rfl
      · split
        · rename_i hw
          rw [free (by omega)]
          rfl
        · rfl
    · intro m b hb
      cases m with
      | pool i =>
        by_cases hi : i = n
        · subst hi
          simpa [sign?, manned, hp] using hb
        · simpa [sign?, hi] using hb
      | scout i => exact hb
      | probe i => exact hb

theorem startSource_begins {x : Source} (h : Numbered r) (hk : r.registry.sources.get? k = none)
    (hl : r.life x.member = ⟨0, 0, 0⟩) (hs : r.sign? x.member = some false) :
    Begins r ((r.startSource x).registerSource k x) (.source k) x.member ∧
      (r.startSource x).journal = .started x.member :: r.journal := by
  have hreg := startSource_registry r x
  cases x with
  | probe n collectors =>
    refine ⟨.ofSource hk hl hs hreg (fun _ => rfl) rfl fun m b hb => ?_, rfl⟩
    cases m <;> exact hb
  | scout n =>
    obtain ⟨sc, hsc, hf⟩ := Option.map_eq_some_iff.mp hs
    obtain ⟨sc', hst, he⟩ := startSource_scout hsc
    rw [he] at hreg ⊢
    refine ⟨.ofSource hk hl hs hreg ?_ rfl ?_, rfl⟩
    · intro w
      simp only [pendingOf, Dict.get?_insert]
      split
      · rename_i hw
        rw [hw, h.tasks r.fresh (Nat.le_refl _)]
        rw [starting]
        split <;> rfl
      · rfl
    · intro m b hb
      cases m with
      | scout i =>
        by_cases hi : i = n
        · subst hi
          simpa [sign?, hst, hsc] using hb
        · simpa [sign?, hi] using hb
      | pool i => exact hb
      | probe i => exact hb

theorem installDrain_passage {d : Drain} (h : Numbered r) (hst : ∀ m, Stage r m)
    (hl : r.life d.member = ⟨0, 0, 0⟩) (hs : r.sign? d.member = some false) (k : Key) (size : Nat) :
    Passage r (r.installDrain k d size) ∧ (r.installDrain k d size).journal = .started d.member ::
      ((r.registry.drains.get? k).map fun old => Event.stopped old.member).toList ++ r.journal := by
  have ho := Steady.openChannel r k size
  have hn := (h.openChannel k size).1
  have hreg : (r.openChannel k size).1.registry.drains = r.registry.drains ∧
      (r.openChannel k size).1.journal = r.journal := by
    rw [openChannel]
    split <;> exact ⟨rfl, rfl⟩
  have hlo := (ho.life d.member).trans hl
  have hso := ho.sign _ _ hs
  have hsto (m : Member) := (hst m).steady ho
  rw [installDrain_eq, ← hreg.1, ← hreg.2]
  generalize (r.openChannel k size).1 = opened at *
  generalize (r.openChannel k size).2 = c at *
  cases hd : opened.registry.drains.get? k with
  | none =>
    have hret : opened.retireDrain k = opened := by simp only [retireDrain, hd]
    obtain ⟨hb, hj⟩ := startDrain_begins hn c hd hlo hso
    rw [hret]
    exact ⟨(Passage.one (.steady ho)).step (.begins _ _ hb), hj⟩
  | some old =>
    obtain ⟨he, hj⟩ := retireDrain_ends hn (hsto old.member) hd
    have hne : d.member ≠ old.member := by
      intro hm
      have := (hsto old.member).life (o := .drain k) (by simp [Owns, hd])
      rw [← hm, hlo] at this
      simp at this
    have hk : (opened.retireDrain k).registry.drains.get? k = none := by
      simp [retireDrain_registry hd, withoutDrain]
    obtain ⟨hb, hj'⟩ := startDrain_begins (hn.retireDrain k).1 c hk ((he.life_of_ne hne).trans hlo)
      (he.sign _ _ hne hso)
    refine ⟨((Passage.one (.steady ho)).step (.ends _ _ _ he)).step (.begins _ _ hb), ?_⟩
    change ((opened.retireDrain k).startDrain c d).journal = _
    rw [hj', hj]
    rfl

theorem installSource_passage {x : Source} (h : Numbered r) (hst : ∀ m, Stage r m)
    (hl : r.life x.member = ⟨0, 0, 0⟩) (hs : r.sign? x.member = some false) (k : Key) :
    Passage r (r.installSource k x) ∧ (r.installSource k x).journal = .started x.member ::
      ((r.registry.sources.get? k).map fun old => Event.stopped old.member).toList ++ r.journal := by
  rw [installSource_eq]
  cases hx : r.registry.sources.get? k with
  | none =>
    have hret : r.retireSource k = r := by simp only [retireSource, hx]
    obtain ⟨hb, hj⟩ := startSource_begins h hx hl hs
    rw [hret]
    exact ⟨.one (.begins _ _ hb), hj⟩
  | some old =>
    obtain ⟨he, hj⟩ := retireSource_ends (hst old.member) hx
    have hne : x.member ≠ old.member := by
      intro hm
      have := (hst old.member).life (o := .source k) (by simp [Owns, hx])
      rw [← hm, hl] at this
      simp at this
    have hk : (r.retireSource k).registry.sources.get? k = none := by
      simp [retireSource_registry hx, withoutSource]
    obtain ⟨hb, hj'⟩ := startSource_begins (h.retireSource k).1 hk ((he.life_of_ne hne).trans hl)
      (he.sign _ _ hne hs)
    refine ⟨(Passage.one (.ends _ _ _ he)).step (.begins _ _ hb), ?_⟩
    change ((r.retireSource k).startSource x).journal = _
    rw [hj', hj]
    rfl

theorem life_fresh (h : Numbered r) (hm : r.fresh ≤ m.number) : r.life m = ⟨0, 0, 0⟩ := by
  have absent {e : Event} (he : e.numbers = [m.number]) : r.journal.count e = 0 := by
    apply List.count_eq_zero_of_not_mem
    intro hj
    have := h.journal e hj m.number (by simp [he])
    omega
  rw [life, lifeIn, absent (e := .started m) rfl, absent (e := .stopped m) rfl, absent (e := .closed m) rfl]

theorem putPool_passage (h : Numbered r) (hst : ∀ m, Stage r m) (k : Key) (spec : Collector.Spec) (size : Nat)
    (accepts : Nat → Bool) (every : Option Nat) : Passage r (r.putPool k spec size accepts every) ∧
      (r.putPool k spec size accepts every).journal = .started (.pool (r.fresh + 1)) ::
        ((r.registry.drains.get? k).map fun old => Event.stopped old.member).toList ++ r.journal := by
  have hs := Steady.addPool h k spec accepts every
  have hn := (h.addOutlet accepts).addPool k spec (Nat.lt_succ_self r.fresh) every
  obtain ⟨hp, hj⟩ := installDrain_passage (d := .pool (r.fresh + 1)) hn (fun m => (hst m).steady hs)
    ((hs.life _).trans (life_fresh h (Nat.le_succ _)))
      (by simp [Drain.member, sign?, addPool, addOutlet, setPool]) k size
  exact ⟨(Passage.one (.steady hs)).trans hp, hj⟩

theorem putProbeDrain_passage (h : Numbered r) (hst : ∀ m, Stage r m) (k : Key) (size : Nat) (keeps : Bool) :
    Passage r (r.putProbeDrain k size keeps) ∧
      (r.putProbeDrain k size keeps).journal = .started (.probe r.fresh) ::
        ((r.registry.drains.get? k).map fun old => Event.stopped old.member).toList ++ r.journal := by
  have hs := Steady.addProbe r
  obtain ⟨hp, hj⟩ := installDrain_passage (d := .probe r.fresh keeps) h.addProbe (fun m => (hst m).steady hs)
    ((hs.life _).trans (life_fresh h (Nat.le_refl _))) rfl k size
  exact ⟨(Passage.one (.steady hs)).trans hp, hj⟩

theorem putDiscovery_passage (h : Numbered r) (hst : ∀ m, Stage r m) (k : Key) (spec : Discovery.Spec)
    (connected reports : Bool) : Passage r (r.putDiscovery k spec connected reports) ∧
      (r.putDiscovery k spec connected reports).journal = .started (.scout r.fresh) ::
        ((r.registry.sources.get? k).map fun old => Event.stopped old.member).toList ++ r.journal := by
  have hs := Steady.addScout h k spec connected reports
  obtain ⟨hp, hj⟩ := installSource_passage (x := .scout r.fresh) (h.addScout k spec connected reports)
    (fun m => (hst m).steady hs) ((hs.life _).trans (life_fresh h (Nat.le_refl _)))
    (by simp [Source.member, sign?, addScout, setScout]) k
  exact ⟨(Passage.one (.steady hs)).trans hp, hj⟩

theorem putProbeSource_passage (h : Numbered r) (hst : ∀ m, Stage r m) (k : Key) (collectors : List Key) :
    Passage r (r.putProbeSource k collectors) ∧
      (r.putProbeSource k collectors).journal = .started (.probe r.fresh) ::
        ((r.registry.sources.get? k).map fun old => Event.stopped old.member).toList ++ r.journal := by
  have hs := Steady.addProbe r
  obtain ⟨hp, hj⟩ := installSource_passage (x := .probe r.fresh collectors) h.addProbe
    (fun m => (hst m).steady hs) ((hs.life _).trans (life_fresh h (Nat.le_refl _))) rfl k
  exact ⟨(Passage.one (.steady hs)).trans hp, hj⟩

theorem Steady.call (h : Numbered r) (c : Call) : Steady r (r.call (c.acts r) c.isTolerant).1 := by
  apply Steady.spawn h
  cases c <;> rfl

theorem move_passage {mv : Move} (h : Numbered r) (hst : ∀ m, Stage r m) (hm : r.move mv = some s) :
    Passage r s := by
  cases mv with
  | turn me => exact .one (turn_passes h hst hm)
  | call c =>
    obtain rfl := Option.some.inj hm
    exact .one (.steady (.call h c))
  | addDiscovery k spec connected reports =>
    obtain rfl := Option.some.inj hm
    exact (putDiscovery_passage h hst k spec connected reports).1
  | addPool k spec size accepts every =>
    obtain rfl := Option.some.inj hm
    exact (putPool_passage h hst k spec size accepts every).1
  | addProbeSource k collectors =>
    obtain rfl := Option.some.inj hm
    exact (putProbeSource_passage h hst k collectors).1
  | addProbeDrain k size keeps =>
    obtain rfl := Option.some.inj hm
    exact (putProbeDrain_passage h hst k size keeps).1
  | surround inventory outage network refusing =>
    obtain rfl := Option.some.inj hm
    exact .one (.steady (.ofSame rfl rfl rfl rfl fun m _ hb => by cases m <;> exact hb))
  | elapse time =>
    obtain rfl := Option.some.inj hm
    exact .one (.steady (.ofSame rfl rfl rfl rfl fun m _ hb => by cases m <;> exact hb))

theorem start_stage (inventory : Cluster.Inventory) (network : Network) (every : Option Nat) (m : Member) :
    Stage (start inventory network every) m :=
  .unborn (fun o => by cases o <;> simp [Owns, start, Registry.empty, pendingOf]) rfl

theorem Reachable.stage (h : Reachable r) (m : Member) : Stage r m := by
  refine h.holds (P := fun r => ∀ m, Stage r m) start_stage ?_ m
  intro r mv s hr hst hm m
  exact (hst m).passage (move_passage hr.numbered hst hm)

end ScrapeRelay.Relay

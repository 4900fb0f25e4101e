import ScrapeRelay.Proofs.Relay.Crews

/-!
How a pool is deleted. A call takes it from the registry together with its channel, closes it and waits for its
crew; when it is over, the channel is sealed.
-/

namespace ScrapeRelay.Relay

/-- How far a call has come with a pool that it took from the registry. -/
inductive Closing (r : Relay) (me n c : Nat) : Prop
  | taken {p : Pool} {rest : List Act} {tolerant : Bool}
      (ht : r.tasks.get? me = some (.call (.closeDrain (.pool n) :: rest) tolerant))
      (hp : r.pools.get? n = some p) (hc : Crew r n c p.workers)
  | waiting {ws : List Nat} {rest : List Act} {tolerant : Bool}
      (ht : r.tasks.get? me = some (.call (.await ws :: rest) tolerant)) (hg : Gone r (.pool n))
      (hs : r.sign? (.pool n) = some false) (hc : Crew r n c ws)
  | done (hc : Sealed r c)

variable {r s t : Relay} {me n c : Nat} {k : Key} {rest : List Act} {tolerant : Bool}

theorem Stage.gone {m : Member} (h : Stage r m) (hc : (r.life m).closed ≠ 0) : Gone r m := by
  cases h with
  | unborn _ hl => simp [hl] at hc
  | owned _ _ hl => simp [hl] at hc
  | stopped _ hl => simp [hl] at hc
  | closed ho hl => exact ⟨ho, by rw [hl]⟩

theorem owns_closing (ht : r.tasks.get? me = some (.call (.closeDrain (.pool n) :: rest) tolerant)) :
    Owns r (.task me) (.pool n) := by
  simp [Owns, pendingOf_eq ht, Task.pending, Task.acts, Act.member?, Drain.member]

namespace Closing

theorem closes {p : Pool} (hr : Reachable r)
    (ht : r.tasks.get? me = some (.call (.closeDrain (.pool n) :: rest) tolerant)) (hp : r.pools.get? n = some p)
    (hc : Crew r n c p.workers) (hm : r.step me = some s) : Closing s me n c := by
  have hs : Reachable s := hr.later (.after (.turn me) .same hm)
  have hsign := (hr.stage _).sign (owns_closing ht)
  have hcrew := hc.move hr.numbered hsign (m := .turn me) hm
  have he := hm
  simp only [step, ht, Option.bind_some, turn, callStep, act, closeDrain_pool hp, Option.map_some] at he
  obtain rfl := Option.some.inj he
  refine @Closing.waiting _ _ _ _ p.workers (.closeSink p.sink :: rest) tolerant ?_ ?_ ?_ hcrew
  · simp [setTask]
  · apply (hs.stage _).gone
    simp [life, lifeIn, setTask]
  · simpa [sign?, setTask, hp] using hsign

theorem move {m : Move} (h : Closing r me n c) (hr : Reachable r) (hm : r.move m = some s) : Closing s me n c := by
  have hs := hr.later (.after m .same hm)
  cases h with
  | taken ht hp hc =>
    by_cases htu : m = .turn me
    · subst htu
      exact closes hr ht hp hc hm
    · have ht' := task_kept hr.numbered hm ht htu (by simp)
      have hl := ((hs.stage _).life (owns_closing ht')).trans ((hr.stage _).life (owns_closing ht)).symm
      obtain ⟨q, hq, hw⟩ := move_workers hr.numbered hm hp hl
      exact .taken ht' hq (hw ▸ hc.move hr.numbered ((hr.stage _).sign (owns_closing ht)) hm)
  | @waiting ws rest tolerant ht hg hsign hc =>
    by_cases htu : m = .turn me
    · subst htu
      have hall : ws.all r.hasEnded = true := by
        have he := hm
        simp only [Relay.move, step, ht, Option.bind_some, turn, callStep, act] at he
        apply Decidable.byContradiction
        intro hn
        simp only [if_neg hn, Option.map_none] at he
        simp at he
      exact .done ((hc.all_ended hall).move hr.numbered hm).1
    · obtain ⟨hg', -, hsign'⟩ := hg.passage (move_passage hr.numbered hr.stage hm)
      exact .waiting (task_kept hr.numbered hm ht htu (by simp)) hg' (hsign' _ hsign)
        (hc.move hr.numbered hsign hm)
  | done hc => exact .done (hc.move hr.numbered hm).1

theorem later (h : Closing r me n c) (hr : Reachable r) (hl : Later r s) : Closing s me n c :=
  hl.keeps (P := fun s => Closing s me n c) (fun _ _ _ hs h hm => h.move hs hm) hr h

theorem ended (h : Closing r me n c) (he : r.hasEnded me = true) : Sealed r c := by
  cases h with
  | taken ht => simp [hasEnded, ht, Task.isEnded] at he
  | waiting ht => simp [hasEnded, ht, Task.isEnded] at he
  | done hc => exact hc

end Closing

theorem Reachable.closing (hr : Reachable r) (hd : r.registry.drains.get? k = some (.pool n))
    (hc : r.registry.channels.get? k = some c)
    (ht : r.tasks.get? me = some (.call (.removeDrain k :: rest) tolerant)) (hm : r.step me = some s) :
    Closing s me n c := by
  obtain ⟨c', p, hc', hp, hcrew⟩ := hr.posted k n hd
  obtain rfl := Option.some.inj (hc.symm.trans hc')
  have ho : Owns r (.drain k) (.pool n) := by simp [Owns, hd, Drain.member]
  have hcrew' := hcrew.move hr.numbered ((hr.stage _).sign ho) (m := .turn me) hm
  have he := hm
  simp only [step, ht, Option.bind_some, turn, callStep, act, removeDrain, hd, Option.map_some] at he
  obtain rfl := Option.some.inj he
  refine @Closing.taken _ _ _ _ p (.forgetCollector k :: rest) tolerant ?_ hp hcrew'
  simp [setTask]

theorem Reachable.removal_seals (hr : Reachable r) (hd : r.registry.drains.get? k = some (.pool n))
    (hc : r.registry.channels.get? k = some c)
    (ht : r.tasks.get? me = some (.call (.removeDrain k :: rest) tolerant)) (hm : r.step me = some s)
    (hl : Later s t) (he : t.hasEnded me = true) : Sealed t c :=
  ((hr.closing hd hc ht hm).later (hr.later (.after (.turn me) .same hm)) hl).ended he

theorem Reachable.replacement_keeps {spec : Collector.Spec} {size : Nat} {accepts : Nat → Bool}
    {every : Option Nat} (hr : Reachable r) (hd : (r.registry.drains.get? k).isSome = true)
    (hm : r.move (.addPool k spec size accepts every) = some s) :
    (∃ c, r.registry.channels.get? k = some c ∧ s.registry.channels.get? k = some c) ∧
      ∀ c, Still r s c ∧ s.received c = r.received c := by
  have hq := move_quiet hr.numbered hm (by simp)
  obtain ⟨events, hj, he⟩ := hq.journal
  refine ⟨?_, fun c => ⟨.quiet hq c, told_same hj fun e h => ?_⟩⟩
  · rw [← hr.paired k, Option.isSome_iff_exists] at hd
    obtain ⟨c, hc⟩ := hd
    refine ⟨c, hc, ?_⟩
    rw [move_registry hr.numbered hm]
    simp only [entered?, Option.elim_some, Registry.enter, withChannel_same, hc]
    rfl
  · have := he e h
    cases e <;> simp_all [Event.isWork, Event.received?]

/-- No target is lost, doubled or put out of order, whatever replaces or deletes the pools on the way. -/
theorem Reachable.hand_off (hr : Reachable r) :
    (∀ c, r.received c ++ (r.channel c).queue = r.pushed c) ∧
    (∀ c, (r.takersOf c).Nodup ∧
      (r.received c).Perm ((r.takersOf c).flatMap fun w => r.handledBy w ++ r.inHand w)) ∧
    (∀ w, r.receivedBy w = r.handledBy w ++ r.inHand w) ∧
    (∀ k spec size accepts every s, (r.registry.drains.get? k).isSome = true →
      r.move (.addPool k spec size accepts every) = some s →
        (∃ c, r.registry.channels.get? k = some c ∧ s.registry.channels.get? k = some c) ∧
        ∀ c, (s.channel c).queue = (r.channel c).queue ∧ s.pushed c = r.pushed c ∧
        s.received c = r.received c) ∧
    ∀ k n c me rest tolerant s t, r.registry.drains.get? k = some (.pool n) →
    r.registry.channels.get? k = some c →
      r.tasks.get? me = some (.call (.removeDrain k :: rest) tolerant) → r.step me = some s → Later s t →
      t.hasEnded me = true →
        (t.channel c).queue = [] ∧ ∀ u, Later t u → (u.channel c).queue = [] ∧
        u.pushed c = t.pushed c := by
  have h := hr.handedOff
  refine ⟨h.conserved, fun c => ⟨List.nodup_dedup _, h.shared c⟩, h.accounted, ?_, ?_⟩
  · intro k spec size accepts every s hd hm
    obtain ⟨hc, hs⟩ := hr.replacement_keeps hd hm
    exact ⟨hc, fun c => ⟨(hs c).1.queue, (hs c).1.pushed, (hs c).2⟩⟩
  · intro k n c me rest tolerant s t hd hc ht hm hl he
    have ht' : Reachable t := (hr.later (.after (.turn me) .same hm)).later hl
    have sealed := hr.removal_seals hd hc ht hm hl he
    refine ⟨sealed.queue, fun u hu => ?_⟩
    obtain ⟨sealed', still⟩ := sealed.later ht' hu
    exact ⟨sealed'.queue, still.pushed⟩

def replacing : List Move :=
  let k : Key := ⟨"monitoring", "pool"⟩
  let target (ip : String) : Target := { Target.ofAnnotations .empty "" with ip }
  [.addPool k .standard 1 (fun _ => true) none, .call (.send k [target "10.0.0.1", target "10.0.0.2"] none),
    .turn 4, .turn 4, .turn 3, .turn 4, .addPool k .standard 5 (fun _ => true) none]

theorem hand_off_replacing : ∃ r, (start .empty .silent none).replay replacing = some r ∧
    (r.pushed 2).map (·.ip) = ["10.0.0.1", "10.0.0.2"] ∧ (r.inHand 3).map (·.ip) = ["10.0.0.1"] ∧
    r.received 2 ++ (r.channel 2).queue = r.pushed 2 ∧
    (r.received 2).Perm ((r.takersOf 2).flatMap fun w => r.handledBy w ++ r.inHand w) := by
  have facts : ((start .empty .silent none).replay replacing).map (fun r =>
      ((r.pushed 2).map (·.ip), (r.inHand 3).map (·.ip))) = some (["10.0.0.1", "10.0.0.2"], ["10.0.0.1"]) := by
    decide +kernel
  obtain ⟨r, hr, he⟩ := Option.map_eq_some_iff.mp facts
  obtain ⟨hp, hh⟩ := Prod.mk.inj he
  have hreach : Reachable r := ⟨.empty, .silent, none, replay_later hr⟩
  obtain ⟨hconserved, hshared, -⟩ := hreach.hand_off
  exact ⟨r, hr, hp, hh, hconserved 2, (hshared 2).2⟩

end ScrapeRelay.Relay

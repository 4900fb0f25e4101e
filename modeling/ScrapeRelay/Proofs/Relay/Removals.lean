import ScrapeRelay.Proofs.Relay.Rosters

/-!
How a discovery is removed. The call that takes it from the registry stops it, takes its tasks over and waits
for them, and makes the board forget it. While nobody else manages discoveries, nobody takes anything from that
call on the way.
-/

namespace ScrapeRelay.Relay

def Act.isManaging : Act → Bool
  | .deliver _ | .cycle .. | .sleep _ => false
  | _ => true

def Task.isManaging : Task → Bool
  | .call acts _ => acts.any Act.isManaging
  | _ => false

def isBusy (r : Relay) : Bool := r.tasks.values.any Task.isManaging

def Call.isManaging : Call → Bool
  | .send .. | .runOnce _ => false
  | _ => true

def Move.isManaging : Move → Bool
  | .call c => c.isManaging
  | .addDiscovery .. | .addPool .. | .addProbeSource .. | .addProbeDrain .. => true
  | _ => false

/-- Nobody manages discoveries and pools but one task. -/
structure Alone (r : Relay) (me : Nat) : Prop where
  reachable : Reachable r
  sole : ∀ w acts tolerant, r.tasks.get? w = some (.call acts tolerant) →
    acts.any Act.isManaging = true → w = me

inductive Strikes (r s : Relay) (me : Nat) : Prop
  | nothing (hreg : s.registry = r.registry)
  | source {k : Key} {x : Source} {rest : List Act} {tolerant : Bool} (hx : r.registry.sources.get? k = some x)
      (ht : r.tasks.get? me = some (.call (.removeSource k :: rest) tolerant))
      (ht' : s.tasks.get? me = some (.call
        (.stopSource x :: .joinSource x :: .forgetDiscovery k :: rest) tolerant))
      (hreg : s.registry = r.registry.enter r.fresh (.noSource k))
  | drain {k : Key} {d : Drain} {rest : List Act} {tolerant : Bool} (hd : r.registry.drains.get? k = some d)
      (ht : r.tasks.get? me = some (.call (.removeDrain k :: rest) tolerant))
      (ht' : s.tasks.get? me = some (.call (.closeDrain d :: .forgetCollector k :: rest) tolerant))
      (hreg : s.registry = r.registry.enter r.fresh (.noDrain k))

variable {r s : Relay} {me n w : Nat} {t t' : Task} {k : Key} {acts rest : List Act} {tolerant : Bool} {m : Move}
  {x : Source}

theorem Call.acts_managing (r : Relay) (c : Call) : (c.acts r).any Act.isManaging = c.isManaging := by
  cases c <;> rfl

theorem Called.managing {acts' : List Act} (h : Called r me tolerant acts s (.call acts' tolerant))
    (ht : acts'.any Act.isManaging = true) : acts.any Act.isManaging = true := by
  generalize he : Task.call acts' tolerant = t' at h
  cases h with
  | sends rest hd h =>
    rcases h with ⟨d', rfl⟩ | rfl | h
    · obtain ⟨rfl, -⟩ := Task.call.inj he
      exact ht
    · obtain ⟨rfl, -⟩ := Task.call.inj he
      exact ht
    · subst he
      cases h
  | cycles rest hn hc h =>
    rcases h with ⟨c', rfl⟩ | h
    · obtain ⟨rfl, -⟩ := Task.call.inj he
      exact ht
    · subst he
      cases h
  | strays | sleeps =>
    obtain ⟨rfl, -⟩ := Task.call.inj he
    exact ht
  | ends => cases he
  | _ => rfl

theorem not_busy (h : r.isBusy = false) (ht : r.tasks.get? w = some (.call acts tolerant)) :
    acts.any Act.isManaging = false := by
  have := List.any_eq_false.mp h _ (Dict.mem_values.mpr ⟨w, ht⟩)
  simpa [Task.isManaging] using this

namespace Alone

theorem call (hr : Reachable r) (hb : r.isBusy = false) {c : Call} (hm : r.move (.call c) = some s) :
    Alone s r.fresh := by
  refine ⟨hr.later (.after _ .same hm), fun w acts tolerant ht ha => ?_⟩
  obtain rfl := Option.some.inj hm
  rcases Dict.of_get?_insert ht with ⟨hw, -⟩ | ⟨-, ht⟩
  · exact hw
  · simp [not_busy hb ht] at ha

theorem move (h : Alone r me) (hm : r.move m = some s) (hq : m.isManaging = false) : Alone s me := by
  refine ⟨h.reachable.later (.after m .same hm), fun w acts tolerant ht ha => ?_⟩
  by_cases hw : m = .turn w
  · subst hw
    rcases step_call h.reachable.numbered hm ht with ⟨hne, -⟩ | ⟨acts', s', -, ht', hc, -⟩
    · exact absurd rfl hne
    · exact h.sole w acts' tolerant ht' (hc.managing ha)
  · rcases move_call h.reachable hm hw ht with ht | ⟨c, rfl, rfl, -⟩
    · exact h.sole w acts tolerant ht ha
    · rw [Call.acts_managing] at ha
      exact absurd (hq.symm.trans ha) (by simp)

end Alone

/-! What is registered -/

theorem install_sources (hn : Numbered r) (hm : r.move m = some s) (htu : ∀ me, m ≠ .turn me)
    (hk : m.sourceKey? ≠ some k) : s.registry.sources.get? k = r.registry.sources.get? k := by
  rw [move_registry hn hm]
  cases m with
  | turn me => exact absurd rfl (htu me)
  | addDiscovery k' | addProbeSource k' =>
    have hne : k ≠ k' := by
      rintro rfl
      exact hk rfl
    exact (Dict.get?_insert ..).trans (if_neg hne)
  | _ => rfl

theorem step_strikes (hn : Numbered r) (hm : r.step me = some s) : Strikes r s me := by
  have hreg := step_registry hn hm
  cases he : r.entered? (.turn me) with
  | none => exact .nothing (by rw [hreg, he, Option.elim_none])
  | some e =>
    obtain ⟨t, ht, he'⟩ := Option.bind_eq_some_iff.mp he
    rw [he, Option.elim_some] at hreg
    rcases struck?_cases he' with ⟨k, x, rest, tolerant, rfl, hx, rfl⟩ | ⟨k, d, rest, tolerant,
      rfl, hd, rfl⟩
    · obtain ⟨s', t', hc, rfl⟩ := step_called ht hm
      cases hc with
      | removesSource rest hx' =>
        obtain rfl := Option.some.inj (hx.symm.trans hx')
        exact .source hx ht (get?_setTask ..) hreg
      | missesSource f rest hx' => simp [hx] at hx'
    · obtain ⟨s', t', hc, rfl⟩ := step_called ht hm
      cases hc with
      | removesDrain rest hd' =>
        obtain rfl := Option.some.inj (hd.symm.trans hd')
        exact .drain hd ht (get?_setTask ..) hreg
      | missesDrain f rest hd' => simp [hd] at hd'

theorem step_sources (hn : Numbered r) (hm : r.step me = some s) (hk : r.registry.sources.get? k = some x) :
    s.registry.sources.get? k = some x ∨ s.registry.sources.get? k = none ∧ ∃ rest tolerant,
      r.tasks.get? me = some (.call (.removeSource k :: rest) tolerant) ∧
      s.tasks.get? me = some (.call (.stopSource x :: .joinSource x :: .forgetDiscovery k :: rest) tolerant) := by
  cases step_strikes hn hm with
  | nothing hreg | drain _ _ _ hreg => exact .inl (by simpa [hreg, Registry.enter] using hk)
  | @source k' _ rest tolerant hx ht ht' hreg =>
    by_cases hne : k = k'
    · subst hne
      obtain rfl := Option.some.inj (hk.symm.trans hx)
      exact .inr ⟨by simp [hreg, Registry.enter], rest, tolerant, ht, ht'⟩
    · exact .inl (by simpa [hreg, Registry.enter, hne] using hk)

theorem step_unregistered (hn : Numbered r) (hm : r.step me = some s) (hk : r.registry.sources.get? k = none) :
    s.registry.sources.get? k = none := by
  cases step_strikes hn hm with
  | nothing hreg | drain _ _ _ hreg => simpa [hreg, Registry.enter] using hk
  | source _ _ _ hreg => simp [hreg, Registry.enter, hk]

theorem move_unregistered (hn : Numbered r) (hm : r.move m = some s) (hq : m.sourceKey? ≠ some k)
    (hk : r.registry.sources.get? k = none) : s.registry.sources.get? k = none := by
  rcases m.turn_or with ⟨me, rfl⟩ | htu
  · exact step_unregistered hn hm hk
  · rw [install_sources hn hm htu hq, hk]

theorem sourceKey?_managing (h : m.isManaging = false) : m.sourceKey? = none := by
  cases m <;> simp_all [Move.isManaging, Move.sourceKey?]

/-! Discoveries that are not stopped -/

theorem mark_key (t : Task) (n : Nat) (f : Face) :
    (t.mark n f).key = f.key ∧ (t.mark n f).reports = f.reports := by
  cases t with
  | call acts tolerant =>
    cases acts with
    | nil => exact ⟨rfl, rfl⟩
    | cons a rest =>
      cases a with
      | stopSource x | joinSource x =>
        simp only [Task.mark, Act.mark]
        split <;> exact ⟨rfl, rfl⟩
      | _ => exact ⟨rfl, rfl⟩
  | _ => exact ⟨rfl, rfl⟩

theorem mark_stopped {f : Face} (h : (t.mark n f).stopped = false) :
    f.stopped = false ∧ ∀ rest tolerant, t ≠ .call (.stopSource (.scout n) :: rest) tolerant := by
  constructor
  · cases t with
    | call acts tolerant =>
      cases acts with
      | nil => exact h
      | cons a rest =>
        cases a with
        | stopSource x =>
          simp only [Task.mark, Act.mark] at h
          split at h
          · simp at h
          · exact h
        | joinSource x =>
          simp only [Task.mark, Act.mark] at h
          split at h <;> exact h
        | _ => exact h
    | _ => exact h
  · rintro rest tolerant rfl
    simp [Task.mark, Act.mark] at h

/-- A discovery whose stop sign is not up is registered under its key, or a call is about to stop it. -/
def Kept (r : Relay) : Prop := ∀ n f, r.face? n = some f → f.stopped = false →
  r.registry.sources.get? f.key = some (.scout n) ∨
    ∃ w rest tolerant, r.tasks.get? w = some (.call (.stopSource (.scout n) :: rest) tolerant)

theorem Kept.step (h : Kept r) (hn : Numbered r) (hm : r.step me = some s) : Kept s := by
  intro n f hf hs
  obtain ⟨t, ht, hface⟩ := step_face hn hm n
  obtain ⟨g, hg, rfl⟩ := Option.map_eq_some_iff.mp (hface.symm.trans hf)
  obtain ⟨hs, hno⟩ := mark_stopped hs
  rw [(mark_key t n g).1]
  rcases h n g hg hs with hk | ⟨w, rest, tolerant, hw⟩
  · rcases step_sources hn hm hk with hk | ⟨-, rest, tolerant, -, hme⟩
    · exact .inl hk
    · exact .inr ⟨me, _, tolerant, hme⟩
  · refine .inr ⟨w, rest, tolerant, task_kept hn (m := .turn me) hm hw ?_ (by simp)⟩
    rintro ⟨⟩
    exact hno rest tolerant (Option.some.inj (ht.symm.trans hw))

theorem Kept.install (h : Kept r) (hn : Numbered r) (hm : r.move m = some s) (htu : ∀ me, m ≠ .turn me) :
    Kept s := by
  intro n f hf hs
  have hface := install_face hn hm htu n
  rw [hf] at hface
  split at hface
  · rename_i hfresh
    subst hfresh
    cases m with
    | addDiscovery k spec connected reports =>
      obtain rfl := Option.some.inj hface
      refine .inl ?_
      rw [move_registry hn hm]
      simp [entered?, Registry.enter]
    | _ => cases hface
  · obtain ⟨g, hg, rfl⟩ := Option.map_eq_some_iff.mp hface.symm
    rw [retired] at hs ⊢
    split at hs
    · simp at hs
    · rename_i hne
      rw [if_neg hne]
      rcases h n g hg hs with hk | ⟨w, rest, tolerant, hw⟩
      · refine .inl ((install_sources hn hm htu fun hm => hne ?_).trans hk)
        rw [hm]
        exact hk
      · exact .inr ⟨w, rest, tolerant, task_kept hn hm hw (htu w) (by simp)⟩

theorem Reachable.kept (hr : Reachable r) : Kept r := by
  refine hr.holds (P := Kept) ?_ ?_
  · intro inventory network every n f hf
    simp [face?, start] at hf
  · intro r m s hr h hm
    rcases m.turn_or with ⟨me, rfl⟩ | htu
    · exact h.step hr.numbered hm
    · exact h.install hr.numbered hm htu

/-! Removals -/

def Unstaffed (r : Relay) (n : Nat) : Prop := ∀ w, r.view Task.runner? w ≠ some n

/-- How far a call has come with a discovery that it removes; `P` is what holds when the board has forgotten it. -/
inductive Removal (P : Relay → Prop) (r : Relay) (me n : Nat) (k : Key) : Prop
  | registered (hk : r.registry.sources.get? k = some (.scout n))
  | stopping {rest : List Act} {tolerant : Bool} (hk : r.registry.sources.get? k = none)
      (ht : r.tasks.get? me =
        some (.call (.stopSource (.scout n) :: .joinSource (.scout n) :: .forgetDiscovery k :: rest) tolerant))
  | joining {rest : List Act} {tolerant : Bool} (hk : r.registry.sources.get? k = none) (hr : Rostered r n)
      (ht : r.tasks.get? me = some (.call (.joinSource (.scout n) :: .forgetDiscovery k :: rest) tolerant))
  | waiting {ts : List Nat} {rest : List Act} {tolerant : Bool} (hk : r.registry.sources.get? k = none)
      (hts : ∀ w, r.view Task.runner? w = some n → w ∈ ts)
      (ht : r.tasks.get? me = some (.call (.await ts :: .forgetDiscovery k :: rest) tolerant))
  | forgetting {rest : List Act} {tolerant : Bool} (hk : r.registry.sources.get? k = none) (hu : Unstaffed r n)
      (ht : r.tasks.get? me = some (.call (.forgetDiscovery k :: rest) tolerant))
  | done (hk : r.registry.sources.get? k = none) (hu : Unstaffed r n) (hp : P r)

theorem move_runner_quiet (hr : Reachable r) (hm : r.move m = some s) (hq : m.isManaging = false)
    (hw : s.view Task.runner? w = some n) : r.view Task.runner? w = some n := by
  rcases move_runner hr hm hw with hw | ⟨-, -, _, _, _, _, rfl⟩
  · exact hw
  · cases hq

theorem Unstaffed.move (h : Unstaffed r n) (hr : Reachable r) (hn : n < r.fresh) (hm : r.move m = some s) :
    Unstaffed s n := by
  intro w hw
  rcases move_runner hr hm hw with hw | ⟨hf, -⟩
  · exact h w hw
  · omega

theorem joinSource_staff {f : Face} (hf : r.face? n = some f) : (r.joinSource (.scout n)).2 = f.staff := by
  obtain ⟨sc, hs, rfl⟩ := Option.map_eq_some_iff.mp hf
  simp only [joinSource, hs]
  rfl

namespace Removal

variable {P : Relay → Prop}

section Steps

variable (ha : Alone r me) (hm : r.step me = some s)

include ha hm

theorem stops (hk : r.registry.sources.get? k = none)
    (ht : r.tasks.get? me =
      some (.call (.stopSource (.scout n) :: .joinSource (.scout n) :: .forgetDiscovery k :: rest) tolerant)) :
    Removal P s me n k := by
  have ho : Owns r (.task me) (.scout n) := by
    simp [Owns, pendingOf_eq ht, Task.pending, Task.acts, Act.member?, Source.member]
  have hro : Rostered r n := by
    rcases ha.reachable.rostered n with hg | hro
    · exact absurd ho (hg.unowned _)
    · exact hro
  have hro' : Rostered s n := by
    refine hro.move (m := .turn me) ha.reachable hm ?_
    rintro _ ⟨⟩ hj
    exact (ha.reachable.joining_gone hj).unowned _ ho
  have hk' := step_unregistered ha.reachable.numbered hm hk
  obtain ⟨s', t', hc, rfl⟩ := step_called ht hm
  cases hc with
  | stops x rest => exact .joining hk' hro' (get?_setTask ..)

theorem joins (hk : r.registry.sources.get? k = none) (hro : Rostered r n)
    (ht : r.tasks.get? me = some (.call (.joinSource (.scout n) :: .forgetDiscovery k :: rest) tolerant)) :
    Removal P s me n k := by
  have hk' := step_unregistered ha.reachable.numbered hm hk
  have hts (w : Nat) (hw : s.view Task.runner? w = some n) : w ∈ (r.joinSource (.scout n)).2 := by
    obtain ⟨f, hf, hin⟩ := hro w (move_runner_quiet (m := .turn me) ha.reachable hm rfl hw)
    rw [joinSource_staff hf]
    exact hin
  obtain ⟨s', t', hc, rfl⟩ := step_called ht hm
  cases hc with
  | joins x rest => exact .waiting hk' hts (get?_setTask ..)

theorem waits {ts : List Nat} (hk : r.registry.sources.get? k = none)
    (hts : ∀ w, r.view Task.runner? w = some n → w ∈ ts)
    (ht : r.tasks.get? me = some (.call (.await ts :: .forgetDiscovery k :: rest) tolerant)) :
    Removal P s me n k := by
  have hk' := step_unregistered ha.reachable.numbered hm hk
  have hrunner (w : Nat) (hw : s.view Task.runner? w = some n) : r.view Task.runner? w = some n :=
    move_runner_quiet (m := .turn me) ha.reachable hm rfl hw
  obtain ⟨s', t', hc, rfl⟩ := step_called ht hm
  cases hc with
  | awaits rest hall =>
    refine .forgetting hk' (fun w hw => ?_) (get?_setTask ..)
    have hw := hrunner w hw
    obtain ⟨t, ht, hrun⟩ := Option.bind_eq_some_iff.mp hw
    have hended : r.hasEnded w = true := List.all_eq_true.mp hall w (hts w hw)
    rw [hasEnded, ht] at hended
    cases t <;> simp_all [Task.isEnded, Task.runner?]

end Steps

theorem move (h : Removal P r me n k) (ha : Alone r me) (hm : r.move m = some s) (hq : m.isManaging = false)
    (hforget : ∀ rest tolerant, m = .turn me → r.registry.sources.get? k = none →
      r.tasks.get? me = some (.call (.forgetDiscovery k :: rest) tolerant) → P s)
    (hkeep : P r → P s) : Removal P s me n k := by
  have hn := ha.reachable.numbered
  have hmanaging (w : Nat) (acts : List Act) (tolerant : Bool) (ht : r.tasks.get? w = some (.call acts tolerant))
      (hany : acts.any Act.isManaging = true) : w = me := ha.sole w acts tolerant ht hany
  have free (hk : r.registry.sources.get? k = none) : s.registry.sources.get? k = none :=
    move_unregistered hn hm (by simp [sourceKey?_managing hq]) hk
  have unstaffed (hu : Unstaffed r n) : Unstaffed s n := fun w hw => hu w (move_runner_quiet ha.reachable hm hq hw)
  by_cases hme : m = .turn me
  · subst hme
    cases h with
    | registered hk =>
      rcases step_sources hn hm hk with hk | ⟨hk, rest, tolerant, -, ht⟩
      · exact .registered hk
      · exact .stopping hk ht
    | stopping hk ht => exact stops ha hm hk ht
    | joining hk hro ht => exact joins ha hm hk hro ht
    | waiting hk hts ht => exact waits ha hm hk hts ht
    | @forgetting rest tolerant hk hu ht => exact .done (free hk) (unstaffed hu) (hforget rest tolerant rfl hk ht)
    | done hk hu hp => exact .done (free hk) (unstaffed hu) (hkeep hp)
  · have kept {acts : List Act} {tolerant : Bool} (ht : r.tasks.get? me = some (.call acts tolerant)) :
        s.tasks.get? me = some (.call acts tolerant) := task_kept hn hm ht hme (by simp)
    cases h with
    | registered hk =>
      rcases m.turn_or with ⟨w, rfl⟩ | htu
      · rcases step_sources hn hm hk with hk | ⟨-, rest, tolerant, ht, -⟩
        · exact .registered hk
        · -- whoever takes a discovery from the registry manages, so it is this call, which has no turn now
          exact absurd (congrArg Move.turn (hmanaging w _ _ ht rfl)) hme
      · refine .registered ((install_sources hn hm htu ?_).trans hk)
        simp [sourceKey?_managing hq]
    | stopping hk ht => exact .stopping (free hk) (kept ht)
    | joining hk hro ht =>
      refine .joining (free hk) (hro.move ha.reachable hm ?_) (kept ht)
      rintro w rfl hj
      obtain ⟨rest, tolerant, htw⟩ := view_head.mp hj
      exact hme (congrArg Move.turn (hmanaging w _ _ htw rfl))
    | waiting hk hts ht =>
      exact .waiting (free hk) (fun w hw => hts w (move_runner_quiet ha.reachable hm hq hw)) (kept ht)
    | forgetting hk hu ht => exact .forgetting (free hk) (unstaffed hu) (kept ht)
    | done hk hu hp => exact .done (free hk) (unstaffed hu) (hkeep hp)

theorem ended (h : Removal P r me n k) (he : r.hasEnded me = true) :
    r.registry.sources.get? k = some (.scout n) ∨ r.registry.sources.get? k = none ∧
    Unstaffed r n ∧ P r := by
  cases h with
  | registered hk => exact .inl hk
  | done hk hu hp => exact .inr ⟨hk, hu, hp⟩
  | stopping _ ht | joining _ _ ht | waiting _ _ ht | forgetting _ _ ht => simp [hasEnded, ht, Task.isEnded] at he

end Removal

end ScrapeRelay.Relay

import ScrapeRelay.Proofs.Relay.Passages
import ScrapeRelay.Proofs.Relay.Work

/-!
What is entered into the registry and what is struck from it. Nothing else changes a registry, and only an
entry that finds no channel under its key has one made.
-/

namespace ScrapeRelay.Relay

inductive Entry where
  | source (k : Key) (x : Source)
  /-- With the room that it asks for and the number of its workers. -/
  | drain (k : Key) (d : Drain) (room staff : Nat)
  | noSource (k : Key)
  | noDrain (k : Key)
  deriving DecidableEq

def Registry.struck? (g : Registry) : Task → Option Entry
  | .call (.removeSource k :: _) _ => (g.sources.get? k).map fun _ => .noSource k
  | .call (.removeDrain k :: _) _ => (g.drains.get? k).map fun _ => .noDrain k
  | _ => none

def entered? (r : Relay) : Move → Option Entry
  | .turn me => (r.tasks.get? me).bind r.registry.struck?
  | .addDiscovery k .. => some (.source k (.scout r.fresh))
  | .addPool k spec size .. => some (.drain k (.pool (r.fresh + 1)) size (max 1 spec.workers))
  | .addProbeSource k collectors => some (.source k (.probe r.fresh collectors))
  | .addProbeDrain k size keeps => some (.drain k (.probe r.fresh keeps) size 0)
  | _ => none

def nextChannel (r : Relay) : Move → Nat
  | .addPool .. => r.fresh + 2
  | .addProbeDrain .. => r.fresh + 1
  | _ => r.fresh

def Registry.withChannel (g : Registry) (k : Key) (c : Nat) : Dict Key Nat :=
  match g.channels.get? k with
  | some _ => g.channels
  | none => g.channels.insert k c

def Registry.enter (g : Registry) (c : Nat) : Entry → Registry
  | .source k x => { g with sources := g.sources.insert k x }
  | .drain k d _ _ => { g with drains := g.drains.insert k d, channels := g.withChannel k c }
  | .noSource k => { g with sources := g.sources.erase k }
  | .noDrain k => { g with drains := g.drains.erase k, channels := g.channels.erase k }

variable {r s : Relay} {me n c : Nat} {t t' : Task} {k k' : Key}

theorem withChannel_same (g : Registry) (k : Key) (c : Nat) :
    (g.withChannel k c).get? k = some ((g.channels.get? k).getD c) := by
  rw [Registry.withChannel]
  cases hc : g.channels.get? k <;> simp [hc]

theorem withChannel_other {g : Registry} (hk : k' ≠ k) : (g.withChannel k c).get? k' = g.channels.get? k' := by
  rw [Registry.withChannel]
  cases g.channels.get? k <;> simp [hk]

theorem struck?_cases {g : Registry} {e : Entry} (h : g.struck? t = some e) :
    (∃ k x rest tolerant, t = .call (.removeSource k :: rest) tolerant ∧
      g.sources.get? k = some x ∧ e = .noSource k) ∨
    ∃ k d rest tolerant, t = .call (.removeDrain k :: rest) tolerant ∧
      g.drains.get? k = some d ∧ e = .noDrain k := by
  simp only [Registry.struck?] at h
  split at h
  · obtain ⟨x, hx, rfl⟩ := Option.map_eq_some_iff.mp h
    exact .inl ⟨_, x, _, _, rfl, hx, rfl⟩
  · obtain ⟨d, hd, rfl⟩ := Option.map_eq_some_iff.mp h
    exact .inr ⟨_, d, _, _, rfl, hd, rfl⟩
  · simp at h

theorem entered?_drain {m : Move} {d : Drain} {room staff : Nat}
    (h : r.entered? m = some (.drain k d room staff)) :
    (∃ spec accepts every, m = .addPool k spec room accepts every ∧ d = .pool (r.fresh + 1) ∧
      staff = max 1 spec.workers) ∨
    ∃ keeps, m = .addProbeDrain k room keeps ∧ d = .probe r.fresh keeps ∧ staff = 0 := by
  cases m with
  | turn me =>
    obtain ⟨t, -, ht⟩ := Option.bind_eq_some_iff.mp h
    rcases struck?_cases ht with ⟨_, _, _, _, _, _, he⟩ | ⟨_, _, _, _, _, _, he⟩ <;> simp at he
  | addPool k spec size accepts every =>
    obtain ⟨rfl, rfl, rfl, rfl⟩ := Entry.drain.inj (Option.some.inj h)
    exact .inl ⟨spec, accepts, every, rfl, rfl, rfl⟩
  | addProbeDrain k size keeps =>
    obtain ⟨rfl, rfl, rfl, rfl⟩ := Entry.drain.inj (Option.some.inj h)
    exact .inr ⟨keeps, rfl, rfl, rfl⟩
  | _ => simp [entered?] at h

theorem entered?_source {m : Move} {x : Source} (h : r.entered? m = some (.source k x)) :
    (∃ spec connected reports, m = .addDiscovery k spec connected reports ∧ x = .scout r.fresh) ∨
    ∃ collectors, m = .addProbeSource k collectors ∧ x = .probe r.fresh collectors := by
  cases m with
  | turn me =>
    obtain ⟨t, -, ht⟩ := Option.bind_eq_some_iff.mp h
    rcases struck?_cases ht with ⟨_, _, _, _, _, _, he⟩ | ⟨_, _, _, _, _, _, he⟩ <;> simp at he
  | addDiscovery k spec connected reports =>
    obtain ⟨rfl, rfl⟩ := Entry.source.inj (Option.some.inj h)
    exact .inl ⟨spec, connected, reports, rfl, rfl⟩
  | addProbeSource k collectors =>
    obtain ⟨rfl, rfl⟩ := Entry.source.inj (Option.some.inj h)
    exact .inr ⟨collectors, rfl, rfl⟩
  | _ => simp [entered?] at h

/-! Turns -/

theorem sent_registry {d? : Option Delivery} (hs : Sent r me d? s) : s.registry = r.registry := by
  rcases hs with ⟨_, _, _, _, _⟩ | ⟨d, hd, hs⟩
  · rfl
  · cases hs <;> rfl

theorem ship_registry (r : Relay) (me n : Nat) (p : Pool) (m : Metric) :
    (r.ship me n p m).registry = r.registry := by
  rw [ship]
  split <;> rfl

theorem worked_registry {p : Pool} {w : Worker} (hw : Worked r me n c p w s t') : s.registry = r.registry := by
  cases hw with
  | takes hw inLine hs =>
    rw [(take?_eq hs).2]
    cases inLine <;> rfl
  | waits hw hs => split <;> rfl
  | leaves hw inLine hs => cases inLine <;> rfl
  | scrapes hs | misses hs | ends => rfl
  | ships => exact ship_registry r me n p _

theorem closeDrain_registry (r : Relay) (d : Drain) : (r.closeDrain d).1.registry = r.registry := by
  cases d with
  | probe n keeps => rw [closeDrain_probe]
  | pool n =>
    cases hp : r.pools.get? n with
    | none => simp only [closeDrain, hp]
    | some p => rw [closeDrain_pool hp]

theorem turned_registry (h : Turned r me t s t') (hn : r.registry.struck? t = none) : s.registry = r.registry := by
  cases h with
  | routine hs => exact sent_registry hs
  | works hp hw => exact worked_registry hw
  | strays | measures => rfl
  | removesSource hx => simp [Registry.struck?, hx] at hn
  | removesDrain hd => simp [Registry.struck?, hd] at hn
  | stopsSource => exact stopSource_registry r _
  | closesDrain => exact closeDrain_registry r _

theorem step_struck {e : Entry} (ht : r.tasks.get? me = some t) (he : r.registry.struck? t = some e)
    (hs : r.step me = some s) : s.registry = r.registry.enter r.fresh e := by
  simp only [Registry.struck?] at he
  split at he
  · obtain ⟨x, hx, rfl⟩ := Option.map_eq_some_iff.mp he
    simp only [step, ht, Option.bind_some, turn, callStep, act, removeSource, hx, Option.map_some] at hs
    rw [← Option.some.inj hs]
    rfl
  · obtain ⟨d, hd, rfl⟩ := Option.map_eq_some_iff.mp he
    simp only [step, ht, Option.bind_some, turn, callStep, act, removeDrain, hd, Option.map_some] at hs
    rw [← Option.some.inj hs]
    rfl
  · simp at he

theorem step_registry (h : Numbered r) (hs : r.step me = some s) :
    s.registry = (r.entered? (.turn me)).elim r.registry (r.registry.enter r.fresh) := by
  obtain ⟨t, t', s', ht, -, htu, he⟩ := step_turned h hs
  simp only [entered?, ht, Option.bind_some]
  cases hn : r.registry.struck? t with
  | none =>
    subst he
    exact turned_registry (s := s') htu hn
  | some e => exact step_struck ht hn hs

/-! Installs -/

theorem openChannel_registry (r : Relay) (k : Key) (size : Nat) :
    (r.openChannel k size).1.registry = { r.registry with channels := r.registry.withChannel k r.fresh } := by
  unfold openChannel Registry.withChannel
  cases hc : r.registry.channels.get? k <;> rfl

theorem openChannel_number (r : Relay) (k : Key) (size : Nat) :
    (r.openChannel k size).2 = (r.registry.channels.get? k).getD r.fresh := by
  rw [openChannel]
  cases hc : r.registry.channels.get? k <;> rfl

theorem installDrain_registry (r : Relay) (k : Key) (d : Drain) (size : Nat) :
    (r.installDrain k d size).registry =
      { r.registry with
        drains := r.registry.drains.insert k d
        channels := r.registry.withChannel k r.fresh } := by
  rw [installDrain_eq]
  have ho := openChannel_registry r k size
  generalize r.openChannel k size = opened at ho
  obtain ⟨r', c⟩ := opened
  have hs := startDrain_registry (r'.retireDrain k) c d
  simp only [registerDrain, setRegistry, hs]
  have hr : (r'.retireDrain k).registry.drains.insert k d = r'.registry.drains.insert k d ∧
      (r'.retireDrain k).registry.sources = r'.registry.sources ∧
      (r'.retireDrain k).registry.channels = r'.registry.channels := by
    rw [retireDrain]
    split
    · rw [stopDrain_registry]
      exact ⟨Dict.erase_insert .., rfl, rfl⟩
    · exact ⟨rfl, rfl, rfl⟩
  rw [hr.1, hr.2.1, hr.2.2, ho]

theorem installSource_registry (r : Relay) (k : Key) (x : Source) :
    (r.installSource k x).registry = { r.registry with sources := r.registry.sources.insert k x } := by
  rw [installSource]
  dsimp only
  rw [startSource_registry]
  split
  · rw [stopSource_registry]
  · rfl

theorem move_registry {m : Move} (h : Numbered r) (hm : r.move m = some s) :
    s.registry = (r.entered? m).elim r.registry (r.registry.enter (r.nextChannel m)) := by
  cases m with
  | turn me => exact step_registry h hm
  | call c =>
    obtain rfl := Option.some.inj hm
    rfl
  | addDiscovery k spec connected reports =>
    obtain rfl := Option.some.inj hm
    exact installSource_registry ..
  | addPool k spec size accepts every =>
    obtain rfl := Option.some.inj hm
    exact installDrain_registry ..
  | addProbeSource k collectors =>
    obtain rfl := Option.some.inj hm
    exact installSource_registry ..
  | addProbeDrain k size keeps =>
    obtain rfl := Option.some.inj hm
    exact installDrain_registry ..
  | surround inventory outage network refusing =>
    obtain rfl := Option.some.inj hm
    rfl
  | elapse time =>
    obtain rfl := Option.some.inj hm
    rfl

def Paired (g : Registry) : Prop := ∀ k, (g.channels.get? k).isSome = (g.drains.get? k).isSome

theorem Paired.enter {g : Registry} (h : Paired g) (c : Nat) (e : Entry) : Paired (g.enter c e) := by
  intro k
  cases e with
  | source k' x => exact h k
  | noSource k' => exact h k
  | noDrain k' =>
    by_cases hk : k = k'
    · simp [Registry.enter, hk]
    · simp [Registry.enter, hk, h k]
  | drain k' d room staff =>
    by_cases hk : k = k'
    · simp [Registry.enter, hk, withChannel_same]
    · simp [Registry.enter, hk, withChannel_other hk, h k]

theorem Reachable.paired (h : Reachable r) : Paired r.registry := by
  apply h.holds (P := fun r => Paired r.registry) (fun _ _ _ _ => rfl)
  intro r m s hr hp hm
  rw [move_registry hr.numbered hm]
  cases r.entered? m with
  | none => exact hp
  | some e => exact hp.enter _ e

def Distinct (g : Registry) : Prop :=
  ∀ k k' c, g.channels.get? k = some c → g.channels.get? k' = some c → k = k'

theorem Distinct.enter {g : Registry} (h : Distinct g) (hc : ∀ k, g.channels.get? k ≠ some c) (e : Entry) :
    Distinct (g.enter c e) := by
  cases e with
  | source k x => exact h
  | noSource k => exact h
  | noDrain k =>
    intro k₁ k₂ c' h₁ h₂
    simp only [Registry.enter, Dict.get?_erase] at h₁ h₂
    split at h₁
    · simp at h₁
    · split at h₂
      · simp at h₂
      · exact h k₁ k₂ c' h₁ h₂
  | drain k d room staff =>
    intro k₁ k₂ c' h₁ h₂
    simp only [Registry.enter, Registry.withChannel] at h₁ h₂
    cases hk : g.channels.get? k with
    | some i =>
      rw [hk] at h₁ h₂
      exact h k₁ k₂ c' h₁ h₂
    | none =>
      simp only [hk, Dict.get?_insert] at h₁ h₂
      split at h₁
      · split at h₂
        · simp_all
        · exact absurd (Option.some.inj h₁ ▸ h₂) (hc k₂)
      · split at h₂
        · exact absurd (Option.some.inj h₂ ▸ h₁) (hc k₁)
        · exact h k₁ k₂ c' h₁ h₂

theorem fresh_nextChannel (r : Relay) (m : Move) : r.fresh ≤ r.nextChannel m := by
  cases m <;> simp [nextChannel]

theorem Reachable.distinct (h : Reachable r) : Distinct r.registry := by
  refine h.holds (P := fun r => Distinct r.registry) ?_ ?_
  · intro inventory network every k k' c hc
    simp [start, Registry.empty] at hc
  · intro r m s hr hd hm
    rw [move_registry hr.numbered hm]
    cases r.entered? m with
    | none => exact hd
    | some e =>
      refine hd.enter (fun k hk => ?_) e
      exact Nat.not_le_of_lt (hr.numbered.given k _ hk) (fresh_nextChannel r m)

/-! The journal -/

theorem move_journal {m : Move} (h : Numbered r) (hm : r.move m = some s) :
    ∃ events, s.journal = events ++ r.journal := by
  have quiet {s : Relay} (hq : Quiet r s) : ∃ events, s.journal = events ++ r.journal := by
    obtain ⟨events, hj, -⟩ := hq.journal
    exact ⟨events, hj⟩
  have apart {s : Relay} (ha : Apart r s) : ∃ events, s.journal = events ++ r.journal := by
    obtain ⟨events, hj, -⟩ := ha.journal
    exact ⟨events, hj⟩
  by_cases ht : ∃ me, m = .turn me
  · obtain ⟨me, rfl⟩ := ht
    obtain ⟨t, t', s', -, -, hd, rfl⟩ := step_did h hm
    cases hd with
    | nothing hq => exact quiet (s := s') hq
    | delivered d hd hs => exact apart (s := s') (.sent (.inr ⟨d, hd, hs⟩))
    | worked n c w p _ hp hs => exact apart (s := s') (.worked hp hs)
  · exact quiet (move_quiet h hm fun me he => ht ⟨me, he⟩)

theorem entered?_source_journal {m : Move} {x : Source} (h : Numbered r) (hst : ∀ m, Stage r m)
    (hm : r.move m = some s) (he : r.entered? m = some (.source k x)) : s.journal = .started x.member ::
      ((r.registry.sources.get? k).map fun old => Event.stopped old.member).toList ++ r.journal := by
  rcases entered?_source he with ⟨spec, connected, reports, rfl, rfl⟩ | ⟨collectors, rfl, rfl⟩
  · obtain rfl := Option.some.inj hm
    exact (putDiscovery_passage h hst k spec connected reports).2
  · obtain rfl := Option.some.inj hm
    exact (putProbeSource_passage h hst k collectors).2

theorem entered?_drain_journal {m : Move} {d : Drain} {room staff : Nat} (h : Numbered r) (hst : ∀ m, Stage r m)
    (hm : r.move m = some s) (he : r.entered? m = some (.drain k d room staff)) : s.journal = .started d.member ::
      ((r.registry.drains.get? k).map fun old => Event.stopped old.member).toList ++ r.journal := by
  rcases entered?_drain he with ⟨spec, accepts, every, rfl, rfl, -⟩ | ⟨keeps, rfl, rfl, -⟩
  · obtain rfl := Option.some.inj hm
    exact (putPool_passage h hst k spec room accepts every).2
  · obtain rfl := Option.some.inj hm
    exact (putProbeDrain_passage h hst k room keeps).2

theorem entered?_noSource {m : Move} {x : Source} (hm : r.move m = some s) (he : r.entered? m = some (.noSource k))
    (hx : r.registry.sources.get? k = some x) :
    ∃ me rest tolerant, s.tasks.get? me = some (.call (.stopSource x :: rest) tolerant) := by
  cases m with
  | turn me =>
    obtain ⟨t, ht, hs⟩ := Option.bind_eq_some_iff.mp he
    rcases struck?_cases hs with ⟨k', y, rest, tolerant, rfl, -, he⟩ | ⟨_, _, _, _, _, _, he⟩
    · obtain rfl := Entry.noSource.inj he
      simp only [Relay.move, step, ht, Option.bind_some, turn, callStep, act, removeSource, hx,
        Option.map_some] at hm
      obtain rfl := Option.some.inj hm
      exact ⟨me, _, tolerant, by simp [setTask]; rfl⟩
    · simp at he
  | _ => simp [entered?] at he

theorem entered?_removal {m : Move} (he : r.entered? m = some (.noDrain k)) :
    ∃ me d rest tolerant, m = .turn me ∧ r.registry.drains.get? k = some d ∧
      r.tasks.get? me = some (.call (.removeDrain k :: rest) tolerant) := by
  cases m with
  | turn me =>
    obtain ⟨t, ht, hs⟩ := Option.bind_eq_some_iff.mp he
    rcases struck?_cases hs with ⟨_, _, _, _, _, _, he⟩ | ⟨k', d, rest, tolerant, rfl, hd, he⟩
    · simp at he
    · obtain rfl := Entry.noDrain.inj he
      exact ⟨me, d, rest, tolerant, rfl, hd, ht⟩
  | _ => simp [entered?] at he

theorem entered?_noDrain {m : Move} {d : Drain} (hm : r.move m = some s) (he : r.entered? m = some (.noDrain k))
    (hd : r.registry.drains.get? k = some d) :
    ∃ me rest tolerant, s.tasks.get? me = some (.call (.closeDrain d :: rest) tolerant) := by
  obtain ⟨me, d', rest, tolerant, rfl, hd', ht⟩ := entered?_removal he
  obtain rfl := Option.some.inj (hd.symm.trans hd')
  simp only [Relay.move, step, ht, Option.bind_some, turn, callStep, act, removeDrain, hd, Option.map_some] at hm
  obtain rfl := Option.some.inj hm
  exact ⟨me, _, tolerant, by simp [setTask]; rfl⟩

end ScrapeRelay.Relay

import ScrapeRelay.Proofs.Relay.Numbers

/-!
The lives of members. Whoever is to end the life of a member owns it: the registry under a key, or a call
that took it from there. A member has at most one owner; one that is owned was started and neither stopped
nor closed, and one that lost its owner was stopped once or closed once, never both.
-/

namespace ScrapeRelay.Relay

inductive Owner where
  | source (k : Key)
  | drain (k : Key)
  | task (task : Nat)
  deriving DecidableEq

def pendingOf (r : Relay) (me : Nat) : List Member := ((r.tasks.get? me).map Task.pending).getD []

def Owns (r : Relay) : Owner → Member → Prop
  | .source k, m => (r.registry.sources.get? k).map Source.member = some m
  | .drain k, m => (r.registry.drains.get? k).map Drain.member = some m
  | .task me, m => m ∈ r.pendingOf me

structure Life where
  started : Nat
  stopped : Nat
  closed : Nat
  deriving DecidableEq, Repr

def lifeIn (journal : List Event) (m : Member) : Life :=
  ⟨journal.count (.started m), journal.count (.stopped m), journal.count (.closed m)⟩

def life (r : Relay) (m : Member) : Life := lifeIn r.journal m

/-- The stop sign of a member; a probe has none that could be up. -/
def sign? (r : Relay) : Member → Option Bool
  | .scout n => (r.scouts.get? n).map (·.stopped)
  | .pool n => (r.pools.get? n).map (·.stopped)
  | .probe _ => some false

inductive Stage (r : Relay) (m : Member) : Prop
  | unborn (ho : ∀ o, ¬ Owns r o m) (hl : r.life m = ⟨0, 0, 0⟩)
  | owned (o : Owner) (ho : ∀ o', Owns r o' m ↔ o' = o) (hl : r.life m = ⟨1, 0, 0⟩)
      (hs : r.sign? m = some false)
  | stopped (ho : ∀ o, ¬ Owns r o m) (hl : r.life m = ⟨1, 1, 0⟩)
  | closed (ho : ∀ o, ¬ Owns r o m) (hl : r.life m = ⟨1, 0, 1⟩)

structure Gone (r : Relay) (m : Member) : Prop where
  unowned : ∀ o, ¬ Owns r o m
  started : (r.life m).started = 1

/-! What can happen to lives and owners -/

structure Steady (r s : Relay) : Prop where
  owns : ∀ o m, Owns s o m ↔ Owns r o m
  life : ∀ m, s.life m = r.life m
  sign : ∀ m b, r.sign? m = some b → s.sign? m = some b

structure HandsOver (r s : Relay) (o o' : Owner) : Prop where
  owns : ∀ p m, Owns s p m ↔ p ≠ o ∧ Owns r p m ∨ p = o' ∧ Owns r o m
  life : ∀ m, s.life m = r.life m
  sign : ∀ m b, r.sign? m = some b → s.sign? m = some b

structure Ends (r s : Relay) (o : Owner) (m : Member) (e : Event) : Prop where
  had : ∀ m', Owns r o m' ↔ m' = m
  how : e = .stopped m ∨ e = .closed m
  owns : ∀ p m', Owns s p m' ↔ p ≠ o ∧ Owns r p m'
  life : ∀ m', s.life m' = lifeIn (e :: r.journal) m'
  sign : ∀ m' b, m' ≠ m → r.sign? m' = some b → s.sign? m' = some b

structure Begins (r s : Relay) (o : Owner) (m : Member) : Prop where
  unborn : r.life m = ⟨0, 0, 0⟩
  ready : r.sign? m = some false
  owns : ∀ p m', Owns s p m' ↔ Owns r p m' ∨ p = o ∧ m' = m
  life : ∀ m', s.life m' = lifeIn (.started m :: r.journal) m'
  sign : ∀ m' b, r.sign? m' = some b → s.sign? m' = some b

inductive Passes (r s : Relay) : Prop
  | steady (h : Steady r s)
  | handsOver (o o' : Owner) (h : HandsOver r s o o')
  | ends (o : Owner) (m : Member) (e : Event) (h : Ends r s o m e)
  | begins (o : Owner) (m : Member) (h : Begins r s o m)

inductive Passage : Relay → Relay → Prop
  | none (r : Relay) : Passage r r
  | step {r s t : Relay} (h : Passage r s) (hs : Passes s t) : Passage r t

variable {r s t : Relay} {m m' : Member} {o : Owner} {k : Key} {me n : Nat}

theorem Passage.one (h : Passes r s) : Passage r s := .step (.none r) h

theorem Passage.trans (h : Passage r s) (ht : Passage s t) : Passage r t := by
  induction ht with
  | none => exact h
  | step _ hs ih => exact .step ih hs

theorem Steady.refl (r : Relay) : Steady r r := ⟨fun _ _ => Iff.rfl, fun _ => rfl, fun _ _ h => h⟩

theorem Steady.trans (h : Steady r s) (ht : Steady s t) : Steady r t :=
  ⟨fun o m => (ht.owns o m).trans (h.owns o m), fun m => (ht.life m).trans (h.life m),
    fun m b hb => ht.sign m b (h.sign m b hb)⟩

theorem Stage.unique (h : Stage r m) {o o' : Owner} (ho : Owns r o m) (ho' : Owns r o' m) : o = o' := by
  cases h with
  | unborn hn => exact absurd ho (hn o)
  | owned p hp => exact ((hp o).mp ho).trans ((hp o').mp ho').symm
  | stopped hn => exact absurd ho (hn o)
  | closed hn => exact absurd ho (hn o)

theorem Stage.life (h : Stage r m) (ho : Owns r o m) : r.life m = ⟨1, 0, 0⟩ := by
  cases h with
  | unborn hn => exact absurd ho (hn o)
  | owned p hp hl => exact hl
  | stopped hn => exact absurd ho (hn o)
  | closed hn => exact absurd ho (hn o)

theorem Stage.sign (h : Stage r m) (ho : Owns r o m) : r.sign? m = some false := by
  cases h with
  | unborn hn => exact absurd ho (hn o)
  | owned p hp hl hs => exact hs
  | stopped hn => exact absurd ho (hn o)
  | closed hn => exact absurd ho (hn o)

theorem lifeIn_of_ne {e : Event} {journal : List Event} (hs : e ≠ .started m) (hp : e ≠ .stopped m)
    (hc : e ≠ .closed m) : lifeIn (e :: journal) m = lifeIn journal m := by
  simp only [lifeIn, List.count_cons_of_ne hs, List.count_cons_of_ne hp, List.count_cons_of_ne hc]

theorem lifeIn_started (journal : List Event) (m : Member) : lifeIn (.started m :: journal) m =
    { lifeIn journal m with started := (lifeIn journal m).started + 1 } := by
  simp [lifeIn]

theorem lifeIn_stopped (journal : List Event) (m : Member) : lifeIn (.stopped m :: journal) m =
    { lifeIn journal m with stopped := (lifeIn journal m).stopped + 1 } := by
  simp [lifeIn]

theorem lifeIn_closed (journal : List Event) (m : Member) : lifeIn (.closed m :: journal) m =
    { lifeIn journal m with closed := (lifeIn journal m).closed + 1 } := by
  simp [lifeIn]

theorem lifeIn_append (events journal : List Event) (m : Member) : lifeIn (events ++ journal) m =
    ⟨events.count (.started m) + (lifeIn journal m).started,
      events.count (.stopped m) + (lifeIn journal m).stopped,
      events.count (.closed m) + (lifeIn journal m).closed⟩ := by
  simp only [lifeIn, List.count_append]

theorem life_between {events events' : List Event} (hj : s.journal = events ++ r.journal)
    (hj' : t.journal = events' ++ s.journal) (h : t.life m = r.life m) :
    s.life m = r.life m ∧ t.life m = s.life m := by
  have hs : s.life m = _ := (congrArg (lifeIn · m) hj).trans (lifeIn_append events r.journal m)
  have ht : t.life m = _ := (congrArg (lifeIn · m) hj').trans (lifeIn_append events' s.journal m)
  change s.life m = ⟨_ + (r.life m).started, _ + (r.life m).stopped, _ + (r.life m).closed⟩ at hs
  change t.life m = ⟨_ + (s.life m).started, _ + (s.life m).stopped, _ + (s.life m).closed⟩ at ht
  rw [h] at ht ⊢
  generalize r.life m = a at hs ht ⊢
  generalize s.life m = b at hs ht ⊢
  cases a
  cases b
  simp only [Life.mk.injEq] at hs ht ⊢
  omega

theorem Ends.life_of_ne {e : Event} (h : Ends r s o m e) (hm : m' ≠ m) : s.life m' = r.life m' := by
  rw [h.life]
  rcases h.how with rfl | rfl
  · exact lifeIn_of_ne (by simp) (by simpa using hm.symm) (by simp)
  · exact lifeIn_of_ne (by simp) (by simp) (by simpa using hm.symm)

theorem Begins.life_of_ne (h : Begins r s o m) (hm : m' ≠ m) : s.life m' = r.life m' := by
  rw [h.life]
  exact lifeIn_of_ne (by simpa using hm.symm) (by simp) (by simp)

/-! Stages are kept -/

theorem Stage.steady_of (h : Stage r m) (ho : ∀ o, Owns s o m ↔ Owns r o m) (hl : s.life m = r.life m)
    (hs : ∀ b, r.sign? m = some b → s.sign? m = some b) : Stage s m := by
  cases h with
  | unborn hn h => exact .unborn (fun o hw => hn o ((ho o).mp hw)) (hl.trans h)
  | owned o hn h hb => exact .owned o (fun p => (ho p).trans (hn p)) (hl.trans h) (hs _ hb)
  | stopped hn h => exact .stopped (fun o hw => hn o ((ho o).mp hw)) (hl.trans h)
  | closed hn h => exact .closed (fun o hw => hn o ((ho o).mp hw)) (hl.trans h)

theorem Stage.steady (h : Stage r m) (hs : Steady r s) : Stage s m :=
  h.steady_of (fun o => hs.owns o m) (hs.life m) (hs.sign m)

theorem Stage.handsOver {o o' : Owner} (h : Stage r m) (hs : HandsOver r s o o') : Stage s m := by
  have hl := hs.life m
  have unowned (ho : ∀ o, ¬ Owns r o m) (p : Owner) : ¬ Owns s p m := by
    rw [hs.owns]
    rintro (⟨-, hp⟩ | ⟨-, hp⟩)
    · exact ho p hp
    · exact ho o hp
  cases h with
  | unborn ho h => exact .unborn (unowned ho) (hl.trans h)
  | stopped ho h => exact .stopped (unowned ho) (hl.trans h)
  | closed ho h => exact .closed (unowned ho) (hl.trans h)
  | owned q ho h hb =>
    by_cases hq : q = o
    · refine .owned o' ?_ (hl.trans h) (hs.sign m _ hb)
      intro p
      rw [hs.owns, ho, ho]
      constructor
      · rintro (⟨hp, rfl⟩ | ⟨hp, -⟩)
        · exact absurd hq hp
        · exact hp
      · exact fun hp => .inr ⟨hp, hq.symm⟩
    · refine .owned q ?_ (hl.trans h) (hs.sign m _ hb)
      intro p
      rw [hs.owns, ho, ho]
      constructor
      · rintro (⟨-, hp⟩ | ⟨-, hp⟩)
        · exact hp
        · exact absurd hp.symm hq
      · rintro rfl
        exact .inl ⟨hq, rfl⟩

theorem Stage.ends {e : Event} (h : Stage r m') (hs : Ends r s o m e) : Stage s m' := by
  by_cases hm : m' = m
  · subst hm
    have hw := (hs.had m').mpr rfl
    have unowned : ∀ p, ¬ Owns s p m' := by
      intro p hp
      obtain ⟨hne, hp⟩ := (hs.owns p m').mp hp
      exact hne (h.unique hp hw)
    have hl : lifeIn r.journal m' = ⟨1, 0, 0⟩ := h.life hw
    rcases hs.how with rfl | rfl
    · exact .stopped unowned (by rw [hs.life, lifeIn_stopped, hl])
    · exact .closed unowned (by rw [hs.life, lifeIn_closed, hl])
  · have hl := hs.life_of_ne hm
    have unowned (ho : ∀ o, ¬ Owns r o m') (p : Owner) : ¬ Owns s p m' :=
      fun hp => ho p ((hs.owns p m').mp hp).2
    cases h with
    | unborn ho h => exact .unborn (unowned ho) (hl.trans h)
    | stopped ho h => exact .stopped (unowned ho) (hl.trans h)
    | closed ho h => exact .closed (unowned ho) (hl.trans h)
    | owned q ho h hb =>
      refine .owned q ?_ (hl.trans h) (hs.sign m' _ hm hb)
      intro p
      rw [hs.owns, ho]
      refine ⟨And.right, ?_⟩
      rintro rfl
      refine ⟨?_, rfl⟩
      rintro rfl
      exact hm ((hs.had m').mp ((ho p).mpr rfl))

theorem Stage.begins (h : Stage r m') (hs : Begins r s o m) : Stage s m' := by
  have owns_of_ne (hm : m' ≠ m) (p : Owner) : Owns s p m' ↔ Owns r p m' := by
    rw [hs.owns]
    simp [hm]
  by_cases hm : m' = m
  · subst hm
    have ho : ∀ p, ¬ Owns r p m' := by
      intro p hp
      have := (h.life hp).symm.trans hs.unborn
      simp at this
    refine .owned o ?_ ?_ (hs.sign m' _ hs.ready)
    · intro p
      rw [hs.owns]
      simp [ho p]
    · rw [hs.life, lifeIn_started]
      change Life.mk ((r.life m').started + 1) (r.life m').stopped (r.life m').closed = _
      rw [hs.unborn]
  · exact h.steady_of (owns_of_ne hm) (hs.life_of_ne hm) (hs.sign m')

theorem Stage.passes (h : Stage r m) (hs : Passes r s) : Stage s m := by
  cases hs with
  | steady hs => exact h.steady hs
  | handsOver o o' hs => exact h.handsOver hs
  | ends o m' e hs => exact h.ends hs
  | begins o m' hs => exact h.begins hs

theorem Stage.passage (h : Stage r m) (hs : Passage r s) : Stage s m := by
  induction hs with
  | none => exact h
  | step _ hs ih => exact ih.passes hs

/-! A life that is over stays what it was. -/

theorem Gone.passes (h : Gone r m) (hs : Passes r s) :
    Gone s m ∧ s.life m = r.life m ∧ ∀ b, r.sign? m = some b → s.sign? m = some b := by
  have kept (ho : ∀ o, ¬ Owns s o m) (hl : s.life m = r.life m)
      (hb : ∀ b, r.sign? m = some b → s.sign? m = some b) :
      Gone s m ∧ s.life m = r.life m ∧ ∀ b, r.sign? m = some b → s.sign? m = some b :=
    ⟨⟨ho, by rw [hl, h.started]⟩, hl, hb⟩
  cases hs with
  | steady hs => exact kept (fun o hw => h.unowned o ((hs.owns o m).mp hw)) (hs.life m) (hs.sign m)
  | handsOver o o' hs =>
    refine kept (fun p hw => ?_) (hs.life m) (hs.sign m)
    rcases (hs.owns p m).mp hw with ⟨-, hp⟩ | ⟨-, hp⟩
    · exact h.unowned p hp
    · exact h.unowned o hp
  | ends o m' e hs =>
    have hm : m ≠ m' := by
      rintro rfl
      exact h.unowned o ((hs.had m).mpr rfl)
    exact kept (fun p hw => h.unowned p ((hs.owns p m).mp hw).2) (hs.life_of_ne hm) fun b => hs.sign m b hm
  | begins o m' hs =>
    have hm : m ≠ m' := by
      rintro rfl
      have := h.started
      rw [hs.unborn] at this
      simp at this
    refine kept (fun p hw => ?_) (hs.life_of_ne hm) (hs.sign m)
    rcases (hs.owns p m).mp hw with hp | ⟨-, hp⟩
    · exact h.unowned p hp
    · exact hm hp

theorem Gone.passage (h : Gone r m) (hs : Passage r s) :
    Gone s m ∧ s.life m = r.life m ∧ ∀ b, r.sign? m = some b → s.sign? m = some b := by
  induction hs with
  | none => exact ⟨h, rfl, fun _ hb => hb⟩
  | step _ hs ih =>
    obtain ⟨hg, hl, hb⟩ := ih
    obtain ⟨hg', hl', hb'⟩ := hg.passes hs
    exact ⟨hg', hl'.trans hl, fun b h => hb' b (hb b h)⟩

end ScrapeRelay.Relay

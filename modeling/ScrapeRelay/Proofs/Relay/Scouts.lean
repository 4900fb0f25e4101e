import ScrapeRelay.Proofs.Relay.Crews
import ScrapeRelay.Proofs.Relay.Deliveries

/-!
Discoveries and the cycles that tasks make for them. A discovery stays on the terms that it was made on. Whoever
stands in the line of a channel is in the middle of a delivery to it, so a cycle begins in no line.
-/

namespace ScrapeRelay.Relay

def KeepsTerms (r s : Relay) : Prop :=
  ∀ n sc, r.scouts.get? n = some sc → ∃ sc', s.scouts.get? n = some sc' ∧ sc'.terms = sc.terms

variable {r s : Relay} {me n c : Nat} {t t' : Task} {k : Key} {m : Move} {sc sc' : Scout}

theorem Scout.collectors_terms (h : sc'.terms = sc.terms) : sc'.collectors = sc.collectors := by
  simp only [terms, Prod.mk.injEq] at h
  rw [collectors, collectors, h.1, h.2.1]

namespace KeepsTerms

theorem of_eq (h : s.scouts = r.scouts) : KeepsTerms r s := fun _ sc hs => ⟨sc, h ▸ hs, rfl⟩

theorem trans {u : Relay} (h : KeepsTerms r s) (hu : KeepsTerms s u) : KeepsTerms r u := by
  intro n sc hs
  obtain ⟨sc', hs', ht⟩ := h n sc hs
  obtain ⟨sc'', hs'', ht'⟩ := hu n sc' hs'
  exact ⟨sc'', hs'', ht'.trans ht⟩

theorem apart (h : Apart r s) : KeepsTerms r s := by
  intro n sc hs
  have hn := h.scouts n
  rw [hs, Option.map_some] at hn
  obtain ⟨sc', hs', ht⟩ := Option.map_eq_some_iff.mp hn
  exact ⟨sc', hs', congrArg Prod.fst ht⟩

theorem set (sc' : Scout) (hs : r.scouts.get? n = some sc) (ht : sc'.terms = sc.terms)
    (hu : s.scouts = r.scouts.insert n sc') : KeepsTerms r s := by
  intro i x hx
  rw [hu, Dict.get?_insert]
  split
  · rename_i hi
    subst hi
    obtain rfl := Option.some.inj (hs.symm.trans hx)
    exact ⟨sc', rfl, ht⟩
  · exact ⟨x, hx, rfl⟩

theorem stopSource (r : Relay) (x : Source) : KeepsTerms r (r.stopSource x) := by
  cases x with
  | probe => exact of_eq rfl
  | scout n =>
    simp only [Relay.stopSource]
    split
    · rename_i sc hs
      split
      · exact of_eq rfl
      · exact set { sc with stopped := true } hs rfl rfl
    · exact of_eq rfl

theorem startSource (r : Relay) (x : Source) : KeepsTerms r (r.startSource x) := by
  cases x with
  | probe => exact of_eq rfl
  | scout n =>
    simp only [Relay.startSource]
    split
    · exact of_eq rfl
    · rename_i sc hs
      split
      · exact set { sc with loop := some r.fresh } hs rfl rfl
      · exact set { sc with announcement := some r.fresh } hs rfl rfl

theorem closeDrain (r : Relay) (d : Drain) : KeepsTerms r (r.closeDrain d).1 := by
  cases d with
  | probe n keeps => exact closeDrain_probe r n keeps ▸ of_eq rfl
  | pool n =>
    cases hp : r.pools.get? n with
    | none => exact of_eq (by simp [Relay.closeDrain, hp])
    | some p => exact closeDrain_pool hp ▸ of_eq rfl

theorem stopDrain (r : Relay) (d : Drain) : KeepsTerms r (r.stopDrain d) := by
  cases d with
  | probe => exact of_eq rfl
  | pool n =>
    cases hp : r.pools.get? n with
    | none => exact of_eq (by simp [Relay.stopDrain, hp])
    | some p =>
      cases hs : p.stopped with
      | true => exact of_eq (by simp [Relay.stopDrain, hp, hs])
      | false => exact stopDrain_pool hp hs ▸ of_eq rfl

theorem startDrain (r : Relay) (c : Nat) (d : Drain) : KeepsTerms r (r.startDrain c d) := by
  cases d with
  | probe => exact of_eq rfl
  | pool n =>
    cases hp : r.pools.get? n with
    | none => exact of_eq (by simp [Relay.startDrain, hp])
    | some p => exact startDrain_pool c hp ▸ of_eq rfl

theorem installSource (r : Relay) (k : Key) (x : Source) : KeepsTerms r (r.installSource k x) := by
  have hr : KeepsTerms r (r.retireSource k) := by
    rw [retireSource]
    split
    · exact stopSource (r.setRegistry (r.withoutSource k)) _
    · exact of_eq rfl
  rw [installSource_eq]
  exact hr.trans (startSource (r.retireSource k) x)

theorem installDrain (r : Relay) (k : Key) (d : Drain) (size : Nat) : KeepsTerms r (r.installDrain k d size) := by
  have ho : KeepsTerms r (r.openChannel k size).1 := by
    rw [openChannel]
    split <;> exact of_eq rfl
  have hr : KeepsTerms (r.openChannel k size).1 ((r.openChannel k size).1.retireDrain k) := by
    rw [retireDrain]
    split
    · exact stopDrain ((r.openChannel k size).1.setRegistry ((r.openChannel k size).1.withoutDrain k)) _
    · exact of_eq rfl
  rw [installDrain_eq]
  exact (ho.trans hr).trans (startDrain _ _ d)

end KeepsTerms

theorem step_terms (hn : Numbered r) (hs : r.step me = some s) : KeepsTerms r s := by
  obtain ⟨t, t', s', ht, -, htu, rfl⟩ := step_turned hn hs
  refine KeepsTerms.trans (s := s') ?_ (.of_eq rfl)
  cases htu with
  | routine hs => exact .apart (.sent hs)
  | works hp hw => exact .apart (.worked hp hw)
  | strays => exact .of_eq rfl
  | measures => exact .of_eq rfl
  | removesSource => exact .of_eq rfl
  | removesDrain => exact .of_eq rfl
  | stopsSource => exact .stopSource r _
  | closesDrain => exact .closeDrain r _

theorem move_terms (hn : Numbered r) (hm : r.move m = some s) : KeepsTerms r s := by
  cases m with
  | turn me => exact step_terms hn hm
  | addDiscovery k spec connected reports =>
    obtain rfl := Option.some.inj hm
    refine KeepsTerms.trans (s := (r.addScout k spec connected reports).1) ?_ (.installSource _ k _)
    intro i x hx
    refine ⟨x, ?_, rfl⟩
    change (r.scouts.insert r.fresh _).get? i = some x
    rw [Dict.get?_insert, if_neg (Nat.ne_of_lt (hn.scouts.lt hx)), hx]
  | addPool k spec size accepts every =>
    obtain rfl := Option.some.inj hm
    exact KeepsTerms.installDrain ((r.addOutlet accepts).1.addPool k spec r.fresh every).1 k _ size
  | addProbeSource k collectors =>
    obtain rfl := Option.some.inj hm
    exact KeepsTerms.installSource r.addProbe.1 k _
  | addProbeDrain k size keeps =>
    obtain rfl := Option.some.inj hm
    exact KeepsTerms.installDrain r.addProbe.1 k _ size
  | call | surround | elapse =>
    obtain rfl := Option.some.inj hm
    exact .of_eq rfl

/-! Tasks in a cycle -/

def Task.cycle? : Task → Option (Nat × Cycle)
  | call (.cycle n c :: _) _ => some (n, c)
  | loop n _ (.cycling c) => some (n, c)
  | _ => none

def cycleOf (r : Relay) (me : Nat) : Option (Nat × Cycle) := (r.tasks.get? me).bind Task.cycle?

theorem cycle?_cases {c : Cycle} (h : t.cycle? = some (n, c)) :
    (∃ rest tolerant, t = .call (.cycle n c :: rest) tolerant) ∨ ∃ due, t = .loop n due (.cycling c) := by
  cases t with
  | call acts tolerant =>
    cases acts with
    | nil => simp [Task.cycle?] at h
    | cons a rest =>
      cases a with
      | cycle i x =>
        obtain ⟨rfl, rfl⟩ := Prod.mk.inj (Option.some.inj h)
        exact .inl ⟨rest, tolerant, rfl⟩
      | _ => simp [Task.cycle?] at h
  | loop i due stage =>
    cases stage with
    | cycling x =>
      obtain ⟨rfl, rfl⟩ := Prod.mk.inj (Option.some.inj h)
      exact .inr ⟨due, rfl⟩
    | resting => simp [Task.cycle?] at h
  | _ => simp [Task.cycle?] at h

theorem delivery?_cycle {c : Cycle} (h : t.cycle? = some (n, c)) : t.delivery? = c.delivery? := by
  rcases cycle?_cases h with ⟨rest, tolerant, rfl⟩ | ⟨due, rfl⟩ <;> rfl

theorem step_cycle {c : Cycle} (ht : r.tasks.get? me = some t) (hc : t.cycle? = some (n, c))
    (hs : r.scouts.get? n = some sc) (hm : r.step me = some s) :
    ∃ s' p t', r.cycle me n sc c = some (s', p) ∧ s = s'.setTask me t' ∧
      (∀ c', p = .going c' → t'.cycle? = some (n, c')) ∧
      ∀ status, p = .over status → t' = .ended (.ok (some status)) ∨ ∃ due, t' = .loop n due .resting := by
  rcases cycle?_cases hc with ⟨rest, tolerant, rfl⟩ | ⟨due, rfl⟩
  · simp only [step, ht, Option.bind_some, turn, callStep, act, hs] at hm
    cases hp : r.cycle me n sc c with
    | none => simp [hp] at hm
    | some q =>
      obtain ⟨s', p⟩ := q
      rw [hp] at hm
      cases p with
      | going c' => exact ⟨s', _, _, rfl, (Option.some.inj hm).symm, fun _ h => by cases h; rfl, by simp⟩
      | «over» status =>
        exact ⟨s', _, _, rfl, (Option.some.inj hm).symm, by simp, fun _ h => by cases h; exact .inl rfl⟩
  · simp only [step, ht, Option.bind_some, turn, loopStep, hs] at hm
    cases hp : r.cycle me n sc c with
    | none => simp [hp] at hm
    | some q =>
      obtain ⟨s', p⟩ := q
      rw [hp] at hm
      cases p with
      | going c' => exact ⟨s', _, _, rfl, (Option.some.inj hm).symm, fun _ h => by cases h; rfl, by simp⟩
      | «over» status =>
        exact ⟨s', _, _, rfl, (Option.some.inj hm).symm, by simp,
          fun _ h => by cases h; exact .inr ⟨due, rfl⟩⟩

/-! Who stands in a line -/

def Backed (r : Relay) (t : Task) : Prop := ∀ n c, t.cycle? = some (n, c) → (r.scouts.get? n).isSome

/-- A task is in the middle of a delivery to a channel that was full. -/
def StuckAt (r : Relay) (me c : Nat) : Prop :=
  ∃ t d, r.tasks.get? me = some t ∧ t.delivery? = some d ∧ d.stage = .stuck c ∧ r.Backed t

variable {d : Delivery}

theorem delivery?_cases (h : t.delivery? = some d) :
    (∃ rest tolerant, t = .call (.deliver d :: rest) tolerant) ∨
    ∃ n batch rest tally, t.cycle? = some (n, .delivering batch d rest tally) := by
  have cycle {c : Cycle} (h : c.delivery? = some d) :
      ∃ batch rest tally, c = .delivering batch d rest tally := by
    cases c with
    | delivering batch d' rest tally =>
      obtain rfl := Option.some.inj h
      exact ⟨batch, rest, tally, rfl⟩
    | _ => simp [Cycle.delivery?] at h
  cases hc : t.cycle? with
  | some q =>
    obtain ⟨batch, rest, tally, hq⟩ := cycle (delivery?_cycle hc ▸ h)
    exact .inr ⟨q.1, batch, rest, tally, hq ▸ rfl⟩
  | none =>
    cases t with
    | call acts tolerant =>
      cases acts with
      | nil => simp [Task.delivery?] at h
      | cons a rest =>
        cases a with
        | deliver d' =>
          obtain rfl := Option.some.inj h
          exact .inl ⟨rest, tolerant, rfl⟩
        | cycle => simp [Task.cycle?] at hc
        | _ => simp [Task.delivery?] at h
    | loop n due stage => cases stage <;> simp [Task.delivery?, Task.cycle?] at h hc
    | _ => simp [Task.delivery?] at h

theorem step_delivering (ht : r.tasks.get? me = some t) (hd : t.delivery? = some d) (hb : r.Backed t)
    (hm : r.step me = some s) : ∃ s' p t', Forwarded r me d s' p ∧ s = s'.setTask me t' ∧
      ∀ d', p = .going d' → t'.delivery? = some d' ∧ r.Backed t' := by
  rcases delivery?_cases hd with ⟨rest, tolerant, rfl⟩ | ⟨n, batch, rest, tally, hc⟩
  · simp only [step, ht, Option.bind_some, turn, callStep, act] at hm
    cases hp : r.deliver me d with
    | none => simp [hp] at hm
    | some q =>
      obtain ⟨s', p⟩ := q
      rw [hp] at hm
      refine ⟨s', p, ?_⟩
      cases p with
      | going d' =>
        refine ⟨_, deliver_forwarded hp, (Option.some.inj hm).symm, fun _ h => ?_⟩
        cases h
        exact ⟨rfl, by simp [Backed, Task.cycle?]⟩
      | «over» result =>
        cases result with
        | ok => exact ⟨_, deliver_forwarded hp, (Option.some.inj hm).symm, by simp⟩
        | error f => cases tolerant <;> exact ⟨_, deliver_forwarded hp, (Option.some.inj hm).symm, by simp⟩
  · obtain ⟨sc, hs⟩ := Option.isSome_iff_exists.mp (hb n _ hc)
    obtain ⟨s', p, t', hp, rfl, hgo, -⟩ := step_cycle ht hc hs hm
    obtain ⟨⟨s'', q⟩, hq, he⟩ := Option.map_eq_some_iff.mp hp
    cases q with
    | going d' =>
      obtain ⟨rfl, rfl⟩ := Prod.mk.inj he
      refine ⟨s'', .going d', t', deliver_forwarded hq, rfl, fun _ h => ?_⟩
      cases h
      have hc' := hgo _ rfl
      refine ⟨delivery?_cycle hc', fun i x hx => ?_⟩
      obtain ⟨rfl, -⟩ := Prod.mk.inj (Option.some.inj (hc'.symm.trans hx))
      exact hb n _ hc
    | «over» result =>
      obtain ⟨rfl, rfl⟩ := Prod.mk.inj he
      exact ⟨s'', .over result, t', deliver_forwarded hq, rfl, by simp⟩

theorem Conveyed.line {before : List (Nat × Target)} {batch : List Target} (h : Conveyed r me before batch d)
    (hi : r.inLine me c ≠ []) : d.stage = .stuck c := by
  cases h with
  | unaddressed h | pushing _ h => exact absurd (h.line c) hi
  | @stuck k limit i sent rest hb h =>
    by_cases hc : c = i
    · rw [hc]
    · exact absurd (h.elsewhere c hc) hi

theorem Conveyed.of_line (hl : ∀ i, r.inLine me i ≠ [] → d.stage = .stuck i) :
    ∃ batch, Conveyed r me (r.brought me) batch d := by
  have none {i : Nat} (hi : d.stage ≠ .stuck i) : r.inLine me i = [] :=
    Classical.byContradiction fun h => hi (hl i h)
  obtain ⟨k, rest, limit, stage⟩ := d
  cases stage with
  | unaddressed => exact ⟨rest, .unaddressed ⟨rfl, fun i => none (by simp)⟩⟩
  | pushing c => exact ⟨rest, .pushing (List.nil_append rest) ⟨by simp, fun i => none (by simp)⟩⟩
  | stuck c =>
    refine ⟨r.inLine me c ++ rest, .stuck rfl ⟨List.prefix_refl _, rfl, fun i hi => none ?_⟩⟩
    simpa using Ne.symm hi

theorem step_unknown {c : Cycle} (ht : r.tasks.get? me = some t) (hc : t.cycle? = some (n, c))
    (hs : r.scouts.get? n = none) (hm : r.step me = some s) : ∃ t', s = r.setTask me t' := by
  rcases cycle?_cases hc with ⟨rest, tolerant, rfl⟩ | ⟨due, rfl⟩
  · simp only [step, ht, Option.bind_some, turn, callStep, act, hs, Option.map_some] at hm
    exact ⟨_, (Option.some.inj hm).symm⟩
  · simp only [step, ht, Option.bind_some, turn, hs, Option.map_some] at hm
    exact ⟨_, (Option.some.inj hm).symm⟩

theorem step_idle (hn : Numbered r) (ht : r.tasks.get? me = some t) (hd : t.delivery? = none)
    (hl : ∀ i, r.inLine me i = []) (hm : r.step me = some s) : ∀ i, s.inLine me i = [] := by
  obtain ⟨u, u', s', hu, -, hdid, rfl⟩ := step_did hn hm
  obtain rfl := Option.some.inj (ht.symm.trans hu)
  cases hdid with
  | nothing hq => exact ((hq.admits me 0).of_clear hl).2
  | delivered d hd' => simp [hd] at hd'
  | worked _ _ _ _ _ _ hw =>
    obtain ⟨i, ts, ha⟩ := hw.admits me
    exact (ha.of_clear hl).2

theorem step_stuck (hn : Numbered r) (h : ∀ c, r.inLine me c ≠ [] → StuckAt r me c) (hm : r.step me = some s)
    (hi : s.inLine me c ≠ []) : ∃ t d, s.tasks.get? me = some t ∧ t.delivery? = some d ∧
    d.stage = .stuck c ∧ r.Backed t := by
  obtain ⟨t, ht, -⟩ := Option.bind_eq_some_iff.mp hm
  have stuck {i : Nat} (hne : r.inLine me i ≠ []) :
      ∃ d, t.delivery? = some d ∧ d.stage = .stuck i ∧ r.Backed t := by
    obtain ⟨t', d, ht', hd, hst, hb⟩ := h i hne
    obtain rfl := Option.some.inj (ht.symm.trans ht')
    exact ⟨d, hd, hst, hb⟩
  have empty (hno : ∀ d, t.delivery? = some d → ¬ r.Backed t) (i : Nat) : r.inLine me i = [] := by
    by_contra hne
    obtain ⟨d, hd, -, hb⟩ := stuck hne
    exact hno d hd hb
  cases hd : t.delivery? with
  | none => exact absurd (step_idle hn ht hd (empty (by simp [hd])) hm c) hi
  | some d =>
    by_cases hb : r.Backed t
    · obtain ⟨s', p, t', hf, rfl, hgo⟩ := step_delivering ht hd hb hm
      have hl (i : Nat) (hne : r.inLine me i ≠ []) : d.stage = .stuck i := by
        obtain ⟨d', hd', hst, -⟩ := stuck hne
        obtain rfl := Option.some.inj (hd.symm.trans hd')
        exact hst
      obtain ⟨batch, hc⟩ := Conveyed.of_line hl
      cases p with
      | going d' =>
        obtain ⟨hd', hb'⟩ := hgo d' rfl
        exact ⟨t', d', by simp [setTask], hd', (hc.going hf).line hi, hb'⟩
      | «over» result =>
        obtain ⟨o, -, hclear⟩ := hc.over hf
        exact absurd (hclear.line c) hi
    · obtain ⟨n, x, hx, hs⟩ : ∃ n x, t.cycle? = some (n, x) ∧ r.scouts.get? n = none := by
        simpa [Backed] using hb
      obtain ⟨t', rfl⟩ := step_unknown ht hx hs hm
      exact absurd (empty (fun _ _ => hb) c) hi

theorem Reachable.stuck (hr : Reachable r) : ∀ me c, r.inLine me c ≠ [] → StuckAt r me c := by
  refine hr.holds (P := fun r => ∀ me c, r.inLine me c ≠ [] → StuckAt r me c) ?_ ?_
  · exact fun inventory network every me c h => absurd rfl h
  · intro r m s hr h hm me c hi
    have hn := hr.numbered
    have backed {t : Task} (hb : r.Backed t) : s.Backed t := by
      intro n x hx
      obtain ⟨sc, hs⟩ := Option.isSome_iff_exists.mp (hb n x hx)
      obtain ⟨sc', hs', -⟩ := move_terms hn hm n sc hs
      simp [hs']
    by_cases hme : m = .turn me
    · subst hme
      obtain ⟨t, d, ht, hd, hst, hb⟩ := step_stuck hn (h me) hm hi
      exact ⟨t, d, ht, hd, hst, backed hb⟩
    · obtain ⟨i, ts, ha⟩ := move_admits hn hm hme
      have hi' : r.inLine me c ≠ [] := by
        by_cases hc : c = i
        · subst hc
          rw [ha.line]
          simp [hi]
        · exact ha.others c hc ▸ hi
      obtain ⟨t, d, ht, hd, hst, hb⟩ := h me c hi'
      refine ⟨t, d, task_kept hn hm ht hme ?_, hd, hst, backed hb⟩
      rintro _ _ _ _ rfl
      simp [Task.delivery?] at hd

theorem Reachable.clear (hr : Reachable r) (ht : r.tasks.get? me = some t) (hd : t.delivery? = none) :
    Clear r me (r.brought me) := by
  refine ⟨rfl, fun c => ?_⟩
  by_contra hne
  obtain ⟨t', d, ht', hd', -⟩ := hr.stuck me c hne
  obtain rfl := Option.some.inj (ht.symm.trans ht')
  simp [hd] at hd'

end ScrapeRelay.Relay

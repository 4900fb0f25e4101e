import ScrapeRelay.Proofs.Relay.Lives

/-!
Who works on targets. A turn that is neither a delivery's nor a worker's leaves all channels, all hands and all
counters as they were, and so does whoever calls or installs; new tasks begin with empty hands.
-/

namespace ScrapeRelay.Relay

def Event.isWork : Event → Bool
  | .entered .. | .taken .. | .handled .. | .offered .. => true
  | _ => false

structure Counters where
  sent : UInt64
  errors : UInt64
  filtered : UInt64
  collected : UInt64
  deriving DecidableEq

def countersOf (s : Collector.Status) : Counters := ⟨s.sent, s.errors, s.filtered, s.collected⟩

inductive Recruited : Option Task → Option Task → Prop
  | kept {t? u? : Option Task} (h : Alike t? u?) : Recruited t? u?
  | worker (n c : Nat) : Recruited none (some (.worker n c .idle))
  | plain (t : Task) (hw : t.isWorker = false) (ho : t.outbound? = none) : Recruited none (some t)

def SamePool (p q : Pool) : Prop :=
  q.pipeline = p.pipeline ∧ q.sink = p.sink ∧ q.size = p.size ∧ countersOf q.status = countersOf p.status

structure Quiet (r s : Relay) : Prop where
  tasks : ∀ w, Recruited (r.tasks.get? w) (s.tasks.get? w)
  channels : ∀ c, s.channels.get? c = r.channels.get? c ∨
    r.channels.get? c = none ∧ ∃ size, s.channels.get? c = some (.ofBuffer size)
  pools : ∀ n p, r.pools.get? n = some p → ∃ q, s.pools.get? n = some q ∧ SamePool p q
  crews : ∀ n p, r.pools.get? n = some p → s.life (.pool n) = r.life (.pool n) →
    (s.pools.get? n).map (·.workers) = some p.workers
  founded : ∀ n q, r.pools.get? n = none → s.pools.get? n = some q →
    r.fresh ≤ n ∧ q.sink + 1 = n ∧ countersOf q.status = ⟨0, 0, 0, 0⟩
  outlets : ∀ i o, r.outlets.get? i = some o → s.outlets.get? i = some o
  journal : ∃ events, s.journal = events ++ r.journal ∧ ∀ e ∈ events, e.isWork = false
  given : ∀ k c, s.registry.channels.get? k = some c → r.registry.channels.get? k = some c ∨ r.fresh ≤ c
  senders : s.senders = r.senders
  fresh : r.fresh ≤ s.fresh

variable {r s : Relay} {me n c : Nat} {t t' : Task} {k : Key}

theorem Alike.trans {t? u? v? : Option Task} (h : Alike t? u?) (hv : Alike u? v?) : Alike t? v? := by
  cases h with
  | same => exact hv
  | reporters =>
    cases hv with
    | same => exact .reporters ..
    | reporters => exact .reporters ..

theorem Recruited.trans {t? u? v? : Option Task} (h : Recruited t? u?) (hv : Recruited u? v?) :
    Recruited t? v? := by
  cases h with
  | kept h =>
    cases hv with
    | kept hv => exact .kept (h.trans hv)
    | worker n c =>
      cases h
      exact .worker n c
    | plain t hw ho =>
      cases h
      exact .plain t hw ho
  | worker n c =>
    cases hv with
    | kept hv =>
      cases hv
      exact .worker n c
  | plain t hw ho =>
    cases hv with
    | kept hv =>
      cases hv with
      | same => exact .plain t hw ho
      | reporters => exact .plain _ rfl rfl

namespace Quiet

theorem refl (r : Relay) : Quiet r r where
  tasks w := .kept (.same _)
  channels c := .inl rfl
  pools n p hp := ⟨p, hp, rfl, rfl, rfl, rfl⟩
  crews n p hp _ := by rw [hp, Option.map_some]
  founded n q hn hq := by simp [hn] at hq
  outlets i o ho := ho
  journal := ⟨[], rfl, by simp⟩
  given k c hc := .inl hc
  senders := rfl
  fresh := Nat.le_refl _

theorem trans {t : Relay} (h : Quiet r s) (ht : Quiet s t) : Quiet r t where
  tasks w := (h.tasks w).trans (ht.tasks w)
  channels c := by
    rcases ht.channels c with hc | ⟨hn, hc⟩
    · rw [hc]
      exact h.channels c
    · rcases h.channels c with hc' | ⟨hn', -⟩
      · exact .inr ⟨hc' ▸ hn, hc⟩
      · exact .inr ⟨hn', hc⟩
  pools n p hp := by
    obtain ⟨q, hq, h₁, h₂, h₃, h₄⟩ := h.pools n p hp
    obtain ⟨q', hq', h₁', h₂', h₃', h₄'⟩ := ht.pools n q hq
    exact ⟨q', hq', h₁'.trans h₁, h₂'.trans h₂, h₃'.trans h₃, h₄'.trans h₄⟩
  crews n p hp hl := by
    obtain ⟨events, hj, -⟩ := h.journal
    obtain ⟨events', hj', -⟩ := ht.journal
    obtain ⟨hs, hu⟩ := life_between hj hj' hl
    obtain ⟨q, hq, hw⟩ := Option.map_eq_some_iff.mp (h.crews n p hp hs)
    rw [← hw]
    exact ht.crews n q hq hu
  founded n q hn hq := by
    cases hs : s.pools.get? n with
    | none =>
      obtain ⟨hle, hq⟩ := ht.founded n q hs hq
      exact ⟨Nat.le_trans h.fresh hle, hq⟩
    | some p =>
      obtain ⟨hle, hsink, hc⟩ := h.founded n p hn hs
      obtain ⟨q', hq', -, hsink', -, hc'⟩ := ht.pools n p hs
      obtain rfl := Option.some.inj (hq.symm.trans hq')
      exact ⟨hle, by rw [hsink', hsink], hc'.trans hc⟩
  outlets i o ho := ht.outlets i o (h.outlets i o ho)
  journal := by
    obtain ⟨events, hj, he⟩ := h.journal
    obtain ⟨events', hj', he'⟩ := ht.journal
    refine ⟨events' ++ events, by rw [hj', hj, List.append_assoc], ?_⟩
    intro e hm
    exact (List.mem_append.mp hm).elim (he' e) (he e)
  given k c hc := by
    rcases ht.given k c hc with hc | hc
    · exact h.given k c hc
    · exact .inr (Nat.le_trans h.fresh hc)
  senders := ht.senders.trans h.senders
  fresh := Nat.le_trans h.fresh ht.fresh

theorem of (events : List Event) (ht : s.tasks = r.tasks) (hc : s.channels = r.channels) (hp : s.pools = r.pools)
    (ho : s.outlets = r.outlets) (hr : s.registry = r.registry) (hs : s.senders = r.senders)
    (hj : s.journal = events ++ r.journal) (he : ∀ e ∈ events, e.isWork = false) (hf : r.fresh ≤ s.fresh) :
    Quiet r s where
  tasks w := by rw [ht]; exact .kept (.same _)
  channels c := .inl (by rw [hc])
  pools n p h := ⟨p, by rw [hp, h], rfl, rfl, rfl, rfl⟩
  crews n p h _ := by rw [hp, h, Option.map_some]
  founded n q h hq := by simp [hp, h] at hq
  outlets i o h := by rw [ho, h]
  journal := ⟨events, hj, he⟩
  given k c h := .inl (hr ▸ h)
  senders := hs
  fresh := hf

theorem aside (h : Aside r s) : Quiet r s := by
  obtain ⟨scouts, board, remarks, hs, hr⟩ := h
  refine .of remarks rfl rfl rfl rfl rfl rfl rfl ?_ (Nat.le_refl _)
  intro e he
  have := hr e he
  cases e <;> simp_all [Event.isRemark, Event.isWork]

theorem record (r : Relay) {e : Event} (he : e.isWork = false) : Quiet r (r.record e) :=
  .of [e] rfl rfl rfl rfl rfl rfl rfl (by simp [he]) (Nat.le_refl _)

theorem setRegistry (r : Relay) {registry : Registry}
    (h : ∀ k c, registry.channels.get? k = some c → r.registry.channels.get? k = some c) :
    Quiet r (r.setRegistry registry) :=
  { refl r with given := fun k c hc => .inl (h k c hc) }

theorem changePool {p q : Pool} (events : List Event) (hp : r.pools.get? n = some p) (hq : SamePool p q)
    (he : ∀ e ∈ events, e.isWork = false)
    (hw : lifeIn (events ++ r.journal) (.pool n) = r.life (.pool n) → q.workers = p.workers) :
    Quiet r { r with pools := r.pools.insert n q, journal := events ++ r.journal } := by
  refine { refl r with pools := ?_, crews := ?_, founded := ?_, journal := ⟨events, rfl, he⟩ }
  · intro m p' hp'
    simp only [Dict.get?_insert]
    split
    · rename_i hm
      subst hm
      obtain rfl := Option.some.inj (hp.symm.trans hp')
      exact ⟨q, rfl, hq⟩
    · exact ⟨p', hp', rfl, rfl, rfl, rfl⟩
  · intro m p' hp' hl
    simp only [Dict.get?_insert]
    split
    · rename_i hm
      subst hm
      obtain rfl := Option.some.inj (hp.symm.trans hp')
      rw [Option.map_some, hw hl]
    · rw [hp', Option.map_some]
  · intro m q' hm hq'
    rcases Dict.of_get?_insert hq' with ⟨rfl, -⟩ | ⟨-, hq'⟩
    · rw [hp] at hm
      cases hm
    · cases hm.symm.trans hq'

theorem setPool {p q : Pool} (hp : r.pools.get? n = some p) (hq : SamePool p q) (hw : q.workers = p.workers) :
    Quiet r (r.setPool n q) :=
  changePool [] hp hq (by simp) fun _ => hw

theorem alike {tasks : Dict Nat Task} (h : ∀ w, Alike (r.tasks.get? w) (tasks.get? w)) :
    Quiet r { r with tasks } :=
  { refl r with tasks := fun w => .kept (h w) }

theorem spawn (h : Numbered r) (hw : t.isWorker = false) (ho : t.outbound? = none) : Quiet r (r.spawn t) := by
  refine { refl r with tasks := ?_, fresh := Nat.le_succ _ }
  intro w
  simp only [Relay.spawn, Relay.setTask, Dict.get?_insert]
  split
  · rename_i hf
    rw [h.tasks w (Nat.le_of_eq hf.symm)]
    exact .plain t hw ho
  · exact .kept (.same _)

theorem stopSource (r : Relay) (x : Source) : Quiet r (r.stopSource x) := by
  cases x with
  | probe n collectors => exact record r rfl
  | scout n =>
    simp only [Relay.stopSource]
    split
    · split
      · exact refl r
      · exact .of [.stopped (.scout n)] rfl rfl rfl rfl rfl rfl rfl (by simp [Event.isWork]) (Nat.le_refl _)
    · exact refl r

theorem closeDrain (r : Relay) (d : Drain) : Quiet r (r.closeDrain d).1 := by
  cases d with
  | probe n keeps =>
    rw [closeDrain_probe]
    exact .of [.closed (.probe n)] rfl rfl rfl rfl rfl rfl rfl (by simp [Event.isWork]) (Nat.le_refl _)
  | pool n =>
    cases hp : r.pools.get? n with
    | none =>
      simp only [Relay.closeDrain, hp]
      exact refl r
    | some p =>
      rw [closeDrain_pool hp]
      have hq : SamePool p { p with workers := [], reporter := none } := ⟨rfl, rfl, rfl, rfl⟩
      have ha : Quiet r { r with tasks := (r.abortReporter p).tasks } := .alike (abortReporter_alike r p)
      refine ha.trans (.changePool [.closed (.pool n)] ?_ hq (by simp [Event.isWork]) ?_)
      · exact hp
      · intro hl
        simp [lifeIn, Relay.life] at hl

/-! Calls and installs -/

theorem openChannel (h : Numbered r) (k : Key) (size : Nat) : Quiet r (r.openChannel k size).1 := by
  rw [Relay.openChannel]
  split
  · exact refl r
  · refine { refl r with channels := ?_, given := ?_, fresh := Nat.le_succ _ }
    · intro c
      simp only [addChannel, setChannel, Dict.get?_insert]
      split
      · rename_i hc
        exact .inr ⟨h.channels c (Nat.le_of_eq hc.symm), size, rfl⟩
      · exact .inl rfl
    · intro k' c hc
      rcases Dict.of_get?_insert hc with ⟨-, rfl⟩ | ⟨-, hc⟩
      · exact .inr (Nat.le_refl _)
      · exact .inl hc

theorem stopDrain (h : Numbered r) (d : Drain) : Quiet r (r.stopDrain d) := by
  cases d with
  | probe n keeps =>
    exact .of [.stopped (.probe n)] rfl rfl rfl rfl rfl rfl rfl (by simp [Event.isWork]) (Nat.le_refl _)
  | pool n =>
    cases hp : r.pools.get? n with
    | none =>
      simp only [Relay.stopDrain, hp]
      exact refl r
    | some p =>
      cases hs : p.stopped with
      | true =>
        simp only [Relay.stopDrain, hp, hs, if_true]
        exact refl r
      | false =>
        rw [stopDrain_pool hp hs]
        have hq : SamePool p { p with stopped := true, workers := [], reporter := none } :=
          ⟨rfl, rfl, rfl, rfl⟩
        have ha : Quiet r { r with tasks := (r.abortReporter p).tasks } := .alike (abortReporter_alike r p)
        have hs :=
          ha.trans (.spawn (t := .retirement p.sink p.workers) (h.alike (abortReporter_alike r p)) rfl rfl)
        refine hs.trans (.changePool [.stopped (.pool n)] ?_ hq (by simp [Event.isWork]) ?_)
        · exact hp
        · intro hl
          simp [lifeIn, Relay.life, Relay.spawn, Relay.setTask] at hl

theorem retireDrain (h : Numbered r) (k : Key) : Quiet r (r.retireDrain k) := by
  have hq : Quiet r (r.setRegistry (r.withoutDrain k)) := setRegistry r fun _ _ hc => hc
  rw [Relay.retireDrain]
  split
  · exact hq.trans (.stopDrain (h.unregisterDrain k) _)
  · exact refl r

theorem startDrain (h : Numbered r) (c : Nat) (d : Drain) : Quiet r (r.startDrain c d) := by
  cases d with
  | probe n keeps =>
    exact .of [.started (.probe n)] rfl rfl rfl rfl rfl rfl rfl (by simp [Event.isWork]) (Nat.le_refl _)
  | pool n =>
    cases hp : r.pools.get? n with
    | none =>
      simp only [Relay.startDrain, hp]
      exact refl r
    | some p =>
      rw [startDrain_pool c hp]
      have hq : SamePool p (r.manned p) := ⟨rfl, rfl, rfl, rfl⟩
      have hs : Quiet r { r with pools := r.pools.insert n (r.manned p), journal :=
          [.started (.pool n)] ++ r.journal } :=
        .changePool [.started (.pool n)] hp hq (by simp [Event.isWork])
          fun hl => by simp [lifeIn, Relay.life] at hl
      have known {m : Nat} {q : Pool} (hn : (r.pools.insert n (r.manned p)).get? m = none)
          (hq : (r.pools.insert n (r.manned p)).get? m = some q) : False := by
        simp [hn] at hq
      refine hs.trans { refl _ with
        tasks := ?_, founded := fun _ _ hn hq => (known hn hq).elim, given := fun _ _ hc => .inl hc, fresh := ?_ }
      · intro w
        change Recruited (r.tasks.get? w) ((r.mustered n c p).get? w)
        rw [get?_mustered]
        split
        · rename_i hw
          rw [h.tasks w (List.mem_range'_1.mp hw).1]
          exact .worker n c
        · split
          · rw [h.tasks w (by omega)]
            exact .plain _ rfl rfl
          · exact .kept (.same _)
      · change r.fresh ≤ r.fresh + p.size + p.reportEvery.isSome.toNat
        omega

theorem installDrain (h : Numbered r) (k : Key) (d : Drain) (size : Nat) : Quiet r (r.installDrain k d size) := by
  rw [installDrain_eq]
  have ho := (h.openChannel k size).1
  have hr := (ho.retireDrain k).1
  have hs := startDrain hr (r.openChannel k size).2 d
  exact (((openChannel h k size).trans (retireDrain ho k)).trans hs).trans (setRegistry _ fun _ _ hc => hc)

theorem startSource (h : Numbered r) (x : Source) : Quiet r (r.startSource x) := by
  cases x with
  | probe n collectors => exact record r rfl
  | scout n =>
    cases hs : r.scouts.get? n with
    | none =>
      simp only [Relay.startSource, hs]
      exact refl r
    | some sc =>
      obtain ⟨sc', -, he⟩ := startSource_scout hs
      rw [he]
      have hq : Quiet r { r with scouts := r.scouts.insert n sc' } :=
        .of [] rfl rfl rfl rfl rfl rfl rfl (by simp) (Nat.le_refl _)
      refine (hq.trans (.spawn (t := r.starting n sc) (h.scoutsSet (h.scouts.lt hs) sc') ?_ ?_)).trans
        (.record _ ?_)
      · rw [starting]
        split <;> rfl
      · rw [starting]
        split <;> rfl
      · rfl

theorem installSource (h : Numbered r) (k : Key) (x : Source) : Quiet r (r.installSource k x) := by
  rw [installSource_eq]
  refine (trans ?_ (.startSource (h.retireSource k).1 x)).trans (.setRegistry _ fun _ _ hc => hc)
  have hq : Quiet r (r.setRegistry (r.withoutSource k)) := setRegistry r fun _ _ hc => hc
  rw [retireSource]
  split
  · exact hq.trans (.stopSource _ _)
  · exact refl r

theorem addPool (h : Numbered r) (k : Key) (spec : Collector.Spec) (accepts : Nat → Bool) (every : Option Nat) :
    Quiet r ((r.addOutlet accepts).1.addPool k spec r.fresh every).1 := by
  have kept {n : Nat} {p : Pool} (hp : r.pools.get? n = some p) :
      ((r.addOutlet accepts).1.addPool k spec r.fresh every).1.pools.get? n = some p := by
    have hn : n ≠ r.fresh + 1 := Nat.ne_of_lt (Nat.lt_succ_of_lt (h.pools.lt hp))
    change (r.pools.insert (r.fresh + 1) _).get? n = some p
    rw [Dict.get?_insert, if_neg hn, hp]
  refine { refl r with pools := ?_, crews := ?_, founded := ?_, outlets := ?_, fresh := Nat.le_add_right _ 2 }
  · intro n p hp
    exact ⟨p, kept hp, rfl, rfl, rfl, rfl⟩
  · intro n p hp _
    rw [kept hp, Option.map_some]
  · intro n q hn hq
    rcases Dict.of_get?_insert hq with ⟨rfl, rfl⟩ | ⟨-, hq⟩
    · exact ⟨Nat.le_succ _, rfl, rfl⟩
    · cases hn.symm.trans hq
  · intro i o ho
    change (r.outlets.insert r.fresh _).get? i = some o
    rw [Dict.get?_insert, if_neg (Nat.ne_of_lt (h.outlets.lt ho)), ho]

end Quiet

theorem move_quiet {m : Move} (h : Numbered r) (hm : r.move m = some s) (ht : ∀ me, m ≠ .turn me) :
    Quiet r s := by
  cases m with
  | turn me => exact absurd rfl (ht me)
  | call c =>
    obtain rfl := Option.some.inj hm
    refine .spawn h rfl ?_
    cases c <;> rfl
  | addDiscovery k spec connected reports =>
    obtain rfl := Option.some.inj hm
    have hq : Quiet r (r.addScout k spec connected reports).1 :=
      .of [] rfl rfl rfl rfl rfl rfl rfl (by simp) (Nat.le_succ _)
    exact hq.trans (.installSource (h.addScout k spec connected reports) k _)
  | addPool k spec size accepts every =>
    obtain rfl := Option.some.inj hm
    have hp := (h.addOutlet accepts).addPool k spec (Nat.lt_succ_self r.fresh) every
    exact (Quiet.addPool h k spec accepts every).trans (.installDrain hp k _ size)
  | addProbeSource k collectors =>
    obtain rfl := Option.some.inj hm
    have hq : Quiet r r.addProbe.1 := .of [] rfl rfl rfl rfl rfl rfl rfl (by simp) (Nat.le_succ _)
    exact hq.trans (.installSource h.addProbe k _)
  | addProbeDrain k size keeps =>
    obtain rfl := Option.some.inj hm
    have hq : Quiet r r.addProbe.1 := .of [] rfl rfl rfl rfl rfl rfl rfl (by simp) (Nat.le_succ _)
    exact hq.trans (.installDrain h.addProbe k _ size)
  | surround inventory outage network refusing =>
    obtain rfl := Option.some.inj hm
    exact .of [] rfl rfl rfl rfl rfl rfl rfl (by simp) (Nat.le_refl _)
  | elapse time =>
    obtain rfl := Option.some.inj hm
    exact .of [] rfl rfl rfl rfl rfl rfl rfl (by simp) (Nat.le_refl _)

/-! Turns -/

inductive Did (r : Relay) (me : Nat) (t : Task) (s : Relay) (t' : Task) : Prop
  | nothing (h : Quiet r s) (hts : s.tasks.get? me = some t) (hw : t.isWorker = false) (hw' : t'.isWorker = false)
      (hh : Held r t.delivery? t'.delivery?)
  | delivered (d : Delivery) (hd : t.delivery? = some d) (h : Delivered r me d s) (hw : t.isWorker = false)
      (hw' : t'.isWorker = false) (hh : Held r t.delivery? t'.delivery?)
  | worked (n c : Nat) (w : Worker) (p : Pool) (ht : t = .worker n c w) (hp : r.pools.get? n = some p)
      (h : Worked r me n c p w s t')

theorem turned_did (h : Numbered r) (ht : r.tasks.get? me = some t) (htu : Turned r me t s t') :
    Did r me t s t' := by
  cases htu with
  | routine hs hr =>
    rcases hs with ha | ⟨d, hd, hs⟩
    · refine .nothing (.aside ha) ?_ hr.plain hr.plain' hr.held
      obtain ⟨scouts, board, remarks, -, -⟩ := ha
      exact ht
    · exact .delivered d hd hs hr.plain hr.plain' hr.held
  | works hp hw => exact .worked _ _ _ _ rfl hp hw
  | strays hp =>
    have := h.staff me _ _ _ ht
    simp [hp] at this
  | measures hp => exact .nothing (.setPool hp ⟨rfl, rfl, rfl, rfl⟩ rfl) ht rfl rfl (.none r _)
  | removesSource hx => exact .nothing (.setRegistry r fun _ _ hc => hc) ht rfl rfl (.none r _)
  | @removesDrain k d rest tolerant hd =>
    exact .nothing (.setRegistry r fun _ _ hc => (Dict.of_get?_erase hc).2) ht rfl rfl (.none r _)
  | @stopsSource x rest tolerant =>
    have hto : ∀ a ∈ rest, a.isPlain = true := (h.task me _ ht).1
    refine .nothing (.stopSource r x) ?_ rfl rfl ?_
    · cases x with
      | probe n collectors => exact ht
      | scout n =>
        simp only [stopSource]
        split
        · split <;> exact ht
        · exact ht
    · rw [delivery?_plain hto]
      exact .none r _
  | @closesDrain d rest tolerant =>
    have hto : ∀ a ∈ rest, a.isPlain = true := (h.task me _ ht).1
    have hd : d.member.number < r.fresh := by
      apply (h.task me _ ht).2 _
      rw [Numbered.numbers_call hto rfl]
      simp [Act.member?]
    have ha := closeDrain_alike r d me
    rw [ht] at ha
    refine .nothing (.closeDrain r d) (ha.kept (by simp)) rfl rfl ?_
    rw [delivery?_plain fun a hm => (List.mem_append.mp hm).elim ((h.closeDrain hd).2.2 a) (hto a)]
    exact .none r _

theorem step_did (h : Numbered r) (hs : r.step me = some s) : ∃ t t' s', r.tasks.get? me = some t ∧
    t.isEnded = false ∧ Did r me t s' t' ∧ s = s'.setTask me t' := by
  obtain ⟨t, t', s', ht, he, htu, rfl⟩ := step_turned h hs
  exact ⟨t, t', s', ht, he, turned_did h ht htu, rfl⟩

theorem move_fresh {m : Move} (h : Numbered r) (hm : r.move m = some s) : r.fresh ≤ s.fresh := by
  by_cases ht : ∃ me, m = .turn me
  · obtain ⟨me, rfl⟩ := ht
    exact Nat.le_of_eq (h.step hm).2.symm
  · exact (move_quiet h hm fun me he => ht ⟨me, he⟩).fresh

end ScrapeRelay.Relay

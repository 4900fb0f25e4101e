import Mathlib.Data.List.Dedup
import Mathlib.Data.List.Perm.Basic
import ScrapeRelay.Proofs.Relay.Work

/-!
What becomes of targets. A channel gives out what was pushed into it, in that order and each once; a worker
is done with what it took, in that order, but for the one that it has in hand.
-/

namespace ScrapeRelay.Relay

def told {α : Type} (f : Event → Option α) (r : Relay) : List α := (r.journal.filterMap f).reverse

def Event.pushed? (c : Nat) : Event → Option Target
  | .entered c' _ t => if c' = c then some t else none
  | _ => none

def Event.received? (c : Nat) : Event → Option Target
  | .taken c' _ t => if c' = c then some t else none
  | _ => none

def Event.receivedBy? (w : Nat) : Event → Option Target
  | .taken _ task? t => if task? = some w then some t else none
  | _ => none

def Event.handledBy? (w : Nat) : Event → Option Target
  | .handled w' t => if w' = w then some t else none
  | _ => none

def pushed (r : Relay) (c : Nat) : List Target := r.told (Event.pushed? c)

def received (r : Relay) (c : Nat) : List Target := r.told (Event.received? c)

def receivedBy (r : Relay) (w : Nat) : List Target := r.told (Event.receivedBy? w)

def handledBy (r : Relay) (w : Nat) : List Target := r.told (Event.handledBy? w)

def Task.inHand? : Task → Option Target
  | .worker _ _ w => w.inHand?
  | _ => none

def inHand (r : Relay) (w : Nat) : List Target := ((r.tasks.get? w).bind Task.inHand?).toList

def OnPost (r : Relay) (w c : Nat) : Prop :=
  ∃ t, r.tasks.get? w = some t ∧ (t.post? = some c ∨ t.isEnded = true)

structure HandedOff (r : Relay) : Prop where
  conserved : ∀ c, r.received c ++ (r.channel c).queue = r.pushed c
  accounted : ∀ w, r.receivedBy w = r.handledBy w ++ r.inHand w
  takers : ∀ c task? t, Event.taken c task? t ∈ r.journal → ∃ w, task? = some w ∧ OnPost r w c
  faithful : ∀ w c c' t t', Event.taken c (some w) t ∈ r.journal →
    Event.taken c' (some w) t' ∈ r.journal → c = c'

def Event.isPassing : Event → Bool
  | .entered .. | .taken .. | .handled .. => true
  | _ => false

structure Calm (r s : Relay) : Prop where
  queue : ∀ c, (s.channel c).queue = (r.channel c).queue
  journal : ∃ events, s.journal = events ++ r.journal ∧ ∀ e ∈ events, e.isPassing = false
  hands : ∀ w, s.inHand w = r.inHand w
  posts : ∀ w c, OnPost r w c → OnPost s w c

variable {r s : Relay} {me n c : Nat} {t t' : Task} {k : Key}

theorem told_append {α : Type} (f : Event → Option α) {events : List Event}
    (hj : s.journal = events ++ r.journal) : s.told f = r.told f ++ (events.filterMap f).reverse := by
  simp only [told, hj, List.filterMap_append, List.reverse_append]

theorem told_same {α : Type} {f : Event → Option α} {events : List Event}
    (hj : s.journal = events ++ r.journal) (hf : ∀ e ∈ events, f e = none) : s.told f = r.told f := by
  rw [told_append f hj, List.filterMap_eq_nil_iff.mpr hf, List.reverse_nil, List.append_nil]

theorem told_silent {α : Type} {f : Event → Option α} {events : List Event}
    (hj : s.journal = events ++ r.journal) (h : s.told f = r.told f) : ∀ e ∈ events, f e = none := by
  have hnone : (events.filterMap f).reverse = [] := List.append_right_eq_self.mp ((told_append f hj).symm.trans h)
  exact List.filterMap_eq_nil_iff.mp (List.reverse_eq_nil_iff.mp hnone)

theorem passing_none {e : Event} (h : e.isPassing = false) (i : Nat) :
    e.pushed? i = none ∧ e.received? i = none ∧ e.receivedBy? i = none ∧ e.handledBy? i = none := by
  cases e <;> simp_all [Event.isPassing, Event.pushed?, Event.received?, Event.receivedBy?, Event.handledBy?]

namespace Calm

theorem ofJournal (events : List Event) (hc : s.channels = r.channels) (ht : s.tasks = r.tasks)
    (hj : s.journal = events ++ r.journal) (he : ∀ e ∈ events, e.isPassing = false) : Calm r s := by
  refine ⟨?_, ⟨events, hj, he⟩, ?_, ?_⟩
  · intro c
    simp only [channel, hc]
  · intro w
    simp only [inHand, ht]
  · intro w c hp
    simpa only [OnPost, ht] using hp

theorem setChannel {ch : Channel} (h : ch.queue = (r.channel c).queue) : Calm r (r.setChannel c ch) := by
  refine ⟨?_, ⟨[], rfl, by simp⟩, fun _ => rfl, fun _ _ hp => hp⟩
  intro i
  simp only [channel, Relay.setChannel, Dict.getD, Dict.get?_insert]
  split
  · rename_i hi
    rw [hi]
    exact h
  · rfl

theorem setTask (ht : r.tasks.get? me = some t) (hi : t'.inHand? = t.inHand?)
    (hp : ∀ c, t.post? = some c ∨ t.isEnded = true → t'.post? = some c ∨ t'.isEnded = true) :
    Calm r (r.setTask me t') := by
  refine ⟨fun _ => rfl, ⟨[], rfl, by simp⟩, ?_, ?_⟩
  · intro w
    simp only [inHand, Relay.setTask, Dict.get?_insert]
    split
    · rename_i hw
      rw [hw, ht, Option.bind_some, Option.bind_some, hi]
    · rfl
  · rintro w c ⟨u, hu, hpost⟩
    by_cases hw : w = me
    · subst hw
      obtain rfl := Option.some.inj (ht.symm.trans hu)
      exact ⟨t', by simp [Relay.setTask], hp c hpost⟩
    · exact ⟨u, by simpa [Relay.setTask, hw] using hu, hpost⟩

theorem quiet (h : Quiet r s) : Calm r s := by
  obtain ⟨events, hj, he⟩ := h.journal
  refine ⟨?_, ⟨events, hj, ?_⟩, ?_, ?_⟩
  · intro c
    simp only [channel, Dict.getD]
    rcases h.channels c with hc | ⟨hn, size, hc⟩
    · rw [hc]
    · rw [hn, hc]
      rfl
  · intro e hm
    have := he e hm
    cases e <;> simp_all [Event.isWork, Event.isPassing]
  · intro w
    have ht := h.tasks w
    simp only [inHand]
    generalize s.tasks.get? w = u? at ht
    generalize r.tasks.get? w = t? at ht
    cases ht with
    | kept ha => cases ha <;> rfl
    | worker n c => rfl
    | plain t hw ho => cases t <;> simp_all [Task.isWorker, Task.inHand?]
  · rintro w c ⟨t, ht, hp⟩
    have hr := h.tasks w
    rw [ht] at hr
    generalize hs : s.tasks.get? w = u? at hr
    cases hr with
    | kept ha =>
      cases ha with
      | same => exact ⟨t, hs, hp⟩
      | reporters => simp [Task.post?, Task.isEnded] at hp

end Calm

theorem HandedOff.calm (h : HandedOff r) (hc : Calm r s) : HandedOff s := by
  obtain ⟨events, hj, he⟩ := hc.journal
  have silent (i : Nat) (e : Event) (hm : e ∈ events) := passing_none (he e hm) i
  have old (c : Nat) (task? : Option Nat) (t : Target) (hm : Event.taken c task? t ∈ s.journal) :
      .taken c task? t ∈ r.journal := by
    rw [hj, List.mem_append] at hm
    apply hm.resolve_left
    intro hm
    exact absurd (he _ hm) (by simp [Event.isPassing])
  refine ⟨?_, ?_, ?_, ?_⟩
  · intro c
    have hr : s.received c = r.received c := told_same hj fun e hm => (silent c e hm).2.1
    have hp : s.pushed c = r.pushed c := told_same hj fun e hm => (silent c e hm).1
    rw [hr, hp, hc.queue, h.conserved]
  · intro w
    have hr : s.receivedBy w = r.receivedBy w := told_same hj fun e hm => (silent w e hm).2.2.1
    have hd : s.handledBy w = r.handledBy w := told_same hj fun e hm => (silent w e hm).2.2.2
    rw [hr, hd, hc.hands, h.accounted]
  · intro c task? t hm
    obtain ⟨w, hw, hp⟩ := h.takers c task? t (old c task? t hm)
    exact ⟨w, hw, hc.posts w c hp⟩
  · intro w c c' t t' hm hm'
    exact h.faithful w c c' t t' (old c _ t hm) (old c' _ t' hm')

/-! Turns -/

theorem channel_setChannel (r : Relay) (c i : Nat) (ch : Channel) :
    (r.setChannel c ch).channel i = if i = c then ch else r.channel i := by
  simp only [channel, setChannel, Dict.getD, Dict.get?_insert]
  split <;> rfl

theorem offer?_queue {ch ch' : Channel} {x : Target} (h : ch.offer? x = some ch') :
    ch'.queue = ch.queue ++ [x] := by
  rw [Channel.offer?] at h
  split at h
  · rw [← Option.some.inj h]
  · split at h
    · rw [← Option.some.inj h]
    · simp at h

theorem HandedOff.enters {ch : Channel} {x : Target} (h : HandedOff r) (ho : (r.channel c).offer? x = some ch) :
    HandedOff ((r.setChannel c ch).record (.entered c (some me) x)) := by
  have hj : ((r.setChannel c ch).record (.entered c (some me) x)).journal = [.entered c (some me) x] ++
      r.journal := rfl
  refine ⟨?_, ?_, ?_, ?_⟩
  · intro i
    have hc := h.conserved i
    have hr : ((r.setChannel c ch).record (.entered c (some me) x)).received i = r.received i :=
      told_same hj (by simp [Event.received?])
    have hp : ((r.setChannel c ch).record (.entered c (some me) x)).pushed i =
        r.pushed i ++ if c = i then [x] else [] := by
      simp only [pushed]
      rw [told_append _ hj]
      by_cases hi : c = i <;> simp [Event.pushed?, hi]
    rw [hr, hp]
    change r.received i ++ ((r.setChannel c ch).channel i).queue = _
    rw [channel_setChannel, ← hc]
    by_cases hi : i = c
    · subst hi
      simp [offer?_queue ho]
    · simp [hi, Ne.symm hi]
  · intro w
    have hr : ((r.setChannel c ch).record (.entered c (some me) x)).receivedBy w = r.receivedBy w :=
      told_same hj (by simp [Event.receivedBy?])
    have hd : ((r.setChannel c ch).record (.entered c (some me) x)).handledBy w = r.handledBy w :=
      told_same hj (by simp [Event.handledBy?])
    rw [hr, hd]
    exact h.accounted w
  · intro i task? y hm
    exact h.takers i task? y ((List.mem_cons.mp hm).resolve_left (by simp))
  · intro w i i' y y' hm hm'
    exact h.faithful w i i' y y' ((List.mem_cons.mp hm).resolve_left (by simp))
      ((List.mem_cons.mp hm').resolve_left (by simp))

theorem HandedOff.delivered {d : Delivery} (h : HandedOff r) (hs : Delivered r me d s) : HandedOff s := by
  cases hs with
  | enters hc ho => exact h.enters ho
  | blocks hc ho => exact h.calm (.setChannel rfl)
  | withdraws hc => exact h.calm (.setChannel rfl)

theorem leave_queue (ch : Channel) (w : Nat) : (ch.leave w).queue = ch.queue := by
  rw [Channel.leave]
  split
  · rfl
  · split <;> rfl

theorem Calm.leaveLine (r : Relay) (me c : Nat) : Calm r (r.leaveLine me c) := .setChannel (leave_queue _ me)

theorem next?_queue {ch : Channel} {x : Target} (h : ch.next? = some x) :
    x :: ch.take.queue = ch.queue ++ ch.admitted.map (·.2) := by
  obtain ⟨rest, hr⟩ := List.head?_eq_some_iff.mp h
  rw [Channel.take, hr, List.tail_cons, ← hr]
  rfl

theorem told_taken {α : Type} (f : Event → Option α) {ch : Channel} {x : Target} {w : Nat}
    (hj : s.journal = .taken c (some w) x ::
      ((ch.admitted.map fun b => Event.entered c (some b.1) b.2).reverse ++ r.journal)) :
    s.told f = r.told f ++ (ch.admitted.filterMap fun b => f (.entered c (some b.1) b.2)) ++
      (f (.taken c (some w) x)).toList := by
  rw [told, hj]
  cases hf : f (.taken c (some w) x) <;>
    simp [told, hf, List.filterMap_append, List.filterMap_reverse, List.filterMap_map]

theorem inHand_setTask (r : Relay) (me w : Nat) (t : Task) :
    (r.setTask me t).inHand w = if w = me then t.inHand?.toList else r.inHand w := by
  simp only [inHand, setTask, Dict.get?_insert]
  split <;> rfl

theorem inHand_eq (ht : r.tasks.get? me = some t) : r.inHand me = t.inHand?.toList := by
  rw [inHand, ht]
  rfl

theorem take?_journal {x : Target} {w : Nat} (hs : r.take? c (some w) = some (x, s)) :
    s.journal = .taken c (some w) x ::
      (((r.channel c).admitted.map fun b => Event.entered c (some b.1) b.2).reverse ++ r.journal) := by
  rw [(take?_eq hs).2]

theorem take?_told {x y : Target} {w i : Nat} {task? : Option Nat} (hs : r.take? c (some w) = some (x, s))
    (hm : .taken i task? y ∈ s.journal) : i = c ∧ task? = some w ∨ .taken i task? y ∈ r.journal := by
  rw [take?_journal hs] at hm
  rcases List.mem_cons.mp hm with hm | hm
  · obtain ⟨rfl, rfl, -⟩ := Event.taken.inj hm
    exact .inl ⟨rfl, rfl⟩
  · exact .inr ((List.mem_append.mp hm).resolve_left (by simp))

theorem take?_queue {x : Target} {w : Nat} (hs : r.take? c (some w) = some (x, s)) (i : Nat) :
    (s.channel i).queue = if i = c then (r.channel c).take.queue else (r.channel i).queue := by
  rw [(take?_eq hs).2]
  change ((r.setChannel c (r.channel c).take).channel i).queue = _
  rw [channel_setChannel, apply_ite Channel.queue]

namespace HandedOff

variable {p : Nat} {w : Worker} {x : Target}

theorem conserved_taken (h : HandedOff r) (hs : r.take? c (some me) = some (x, s)) (i : Nat) :
    s.received i ++ (s.channel i).queue = s.pushed i := by
  have hr := told_taken (Event.received? i) (take?_journal hs)
  have hp := told_taken (Event.pushed? i) (take?_journal hs)
  rw [received, pushed, hr, hp, take?_queue hs]
  have hi := h.conserved i
  simp only [received, pushed] at hi
  by_cases hic : i = c
  · subst hic
    simp [Event.received?, Event.pushed?, ← hi, next?_queue (take?_eq hs).1]
  · simp [Event.received?, Event.pushed?, Ne.symm hic, hic, hi]

theorem accounted_taken (h : HandedOff r) (hs : r.take? c (some me) = some (x, s))
    (he : r.inHand me = []) (v : Nat) :
    s.receivedBy v = s.handledBy v ++ if v = me then [x] else r.inHand v := by
  have hr := told_taken (Event.receivedBy? v) (take?_journal hs)
  have hd := told_taken (Event.handledBy? v) (take?_journal hs)
  rw [receivedBy, handledBy, hr, hd]
  have hv := h.accounted v
  simp only [receivedBy, handledBy] at hv
  by_cases hvm : v = me
  · subst hvm
    rw [he, List.append_nil] at hv
    simp [Event.receivedBy?, Event.handledBy?, hv]
  · simp [Event.receivedBy?, Event.handledBy?, hvm, Ne.symm hvm, hv]

theorem post_taken {i : Nat} {y : Target} (h : HandedOff r) (ht : r.tasks.get? me = some (.worker p c w))
    (hm : .taken i (some me) y ∈ r.journal) : i = c := by
  obtain ⟨v, hv, u, hu, hpost⟩ := h.takers i _ y hm
  obtain rfl := Option.some.inj hv
  obtain rfl := Option.some.inj (ht.symm.trans hu)
  simpa [Task.post?, Task.isEnded, eq_comm] using hpost

theorem takes (h : HandedOff r) (ht : r.tasks.get? me = some (.worker p c w)) (hw : w.inHand? = none)
    (hs : r.take? c (some me) = some (x, s)) : HandedOff (s.setTask me (.worker p c (.holding x))) := by
  have mine {i : Nat} {y : Target} (hm : .taken i (some me) y ∈ r.journal) : i = c := h.post_taken ht hm
  refine ⟨fun i => h.conserved_taken hs i, ?_, ?_, ?_⟩
  · intro v
    have he : r.inHand me = [] := by rw [inHand_eq ht, Task.inHand?, hw, Option.toList_none]
    have hin : (s.setTask me (.worker p c (.holding x))).inHand v = if v = me then [x] else r.inHand v := by
      rw [inHand_setTask, (take?_eq hs).2]
      rfl
    rw [hin]
    exact h.accounted_taken hs he v
  · intro i task? y hm
    have here : OnPost (s.setTask me (.worker p c (.holding x))) me c :=
      ⟨.worker p c (.holding x), by simp [setTask], .inl rfl⟩
    rcases take?_told hs hm with ⟨rfl, rfl⟩ | hold
    · exact ⟨me, rfl, here⟩
    · obtain ⟨v, rfl, u, hu, hpost⟩ := h.takers i task? y hold
      refine ⟨v, rfl, ?_⟩
      by_cases hvm : v = me
      · subst hvm
        exact mine hold ▸ here
      · exact ⟨u, by rw [(take?_eq hs).2]; simpa [setTask, hvm] using hu, hpost⟩
  · intro w i i' y y' hm hm'
    rcases take?_told hs hm with ⟨hi, hw⟩ | hold
    · rcases take?_told hs hm' with ⟨hi', -⟩ | hold'
      · rw [hi, hi']
      · exact hi.trans (mine (hw ▸ hold')).symm
    · rcases take?_told hs hm' with ⟨hi', hw⟩ | hold'
      · exact (mine (hw ▸ hold)).trans hi'.symm
      · exact h.faithful w i i' y y' hold hold'

end HandedOff

theorem HandedOff.handles {p : Nat} {w w' : Worker} {x : Target} (h : HandedOff r)
    (ht : r.tasks.get? me = some (.worker p c w)) (hi : w.inHand? = some x) (hi' : w'.inHand? = none) :
    HandedOff ((r.record (.handled me x)).setTask me (.worker p c w')) := by
  have hj : ((r.record (.handled me x)).setTask me (.worker p c w')).journal = [.handled me x] ++ r.journal := rfl
  have told (i : Nat) (task? : Option Nat) (y : Target)
      (hm : Event.taken i task? y ∈ ((r.record (.handled me x)).setTask me (.worker p c w')).journal) :
      .taken i task? y ∈ r.journal := (List.mem_cons.mp hm).resolve_left (by simp)
  refine ⟨?_, ?_, ?_, ?_⟩
  · intro i
    have hr : ((r.record (.handled me x)).setTask me (.worker p c w')).received i = r.received i :=
      told_same hj (by simp [Event.received?])
    have hp : ((r.record (.handled me x)).setTask me (.worker p c w')).pushed i = r.pushed i :=
      told_same hj (by simp [Event.pushed?])
    rw [hr, hp]
    exact h.conserved i
  · intro v
    have hr : ((r.record (.handled me x)).setTask me (.worker p c w')).receivedBy v = r.receivedBy v :=
      told_same hj (by simp [Event.receivedBy?])
    have hd := told_append (Event.handledBy? v) hj
    have hin : ((r.record (.handled me x)).setTask me (.worker p c w')).inHand v =
        if v = me then [] else r.inHand v := by
      rw [inHand_setTask, Task.inHand?, hi']
      rfl
    rw [hr, handledBy, hd, hin, h.accounted v]
    by_cases hvm : v = me
    · subst hvm
      simp [inHand_eq ht, Task.inHand?, hi, Event.handledBy?, handledBy]
    · simp [hvm, Ne.symm hvm, Event.handledBy?, handledBy]
  · intro i task? y hm
    obtain ⟨v, hv, u, hu, hpost⟩ := h.takers i task? y (told i task? y hm)
    refine ⟨v, hv, ?_⟩
    by_cases hvm : v = me
    · subst hvm
      obtain rfl := Option.some.inj (ht.symm.trans hu)
      exact ⟨.worker p c w', by simp [setTask], hpost⟩
    · exact ⟨u, by simpa [setTask, record, hvm] using hu, hpost⟩
  · intro v i i' y y' hm hm'
    exact h.faithful v i i' y y' (told i _ y hm) (told i' _ y' hm')

theorem Calm.ship {p : Pool} (me n : Nat) (m : Metric) : Calm r (r.ship me n p m) := by
  cases hf : p.pipeline.fate m with
  | filtered name =>
    simp only [Relay.ship, hf]
    exact ofJournal [] rfl rfl rfl (by simp)
  | refused problem =>
    simp only [Relay.ship, hf]
    exact ofJournal [] rfl rfl rfl (by simp)
  | payload text =>
    rw [ship_payload hf]
    exact ofJournal [.offered p.sink me text (r.takesNext p.sink)] rfl rfl rfl (by simp [Event.isPassing])

theorem Calm.worker {w w' : Worker} (ht : r.tasks.get? me = some (.worker n c w)) (hi : w'.inHand? = w.inHand?) :
    Calm r (r.setTask me (.worker n c w')) := by
  have hi : (Task.worker n c w').inHand? = (Task.worker n c w).inHand? := hi
  exact .setTask ht hi fun _ hp => hp

theorem Calm.ended {w : Worker} (ht : r.tasks.get? me = some (.worker n c w)) (hi : w.inHand? = none) :
    Calm r (r.setTask me finished) := by
  have hi : finished.inHand? = (Task.worker n c w).inHand? := hi.symm
  exact .setTask ht hi fun _ _ => .inr rfl

theorem HandedOff.works {p : Pool} {w : Worker} (h : HandedOff r) (ht : r.tasks.get? me = some (.worker n c w))
    (hw : Worked r me n c p w s t') : HandedOff (s.setTask me t') := by
  cases hw with
  | takes hw inLine hs =>
    have taken := h.takes ht hw hs
    cases inLine
    · exact taken
    · exact taken.calm (Calm.setChannel (r := setTask _ me _) (leave_queue _ me))
  | waits hw hs =>
    split
    · exact h.calm (.worker ht hw.symm)
    · refine (h.calm (s := r.setChannel c ((r.channel c).await me)) (.setChannel rfl)).calm (.worker ?_ hw.symm)
      exact ht
  | leaves hw inLine hs =>
    cases inLine
    · exact h.calm (.ended ht hw)
    · have ht : (r.leaveLine me c).tasks.get? me = some (.worker n c _) := ht
      exact (h.calm (.leaveLine r me c)).calm (.ended ht hw)
  | scrapes hs => exact h.calm (.worker ht rfl)
  | misses hs =>
    have hc : Calm r (r.setStatus n p p.status.countError) := .ofJournal [] rfl rfl rfl (by simp)
    exact (h.calm hc).handles ht rfl rfl
  | ships =>
    rw [← Numbered.ship_tasks r me n p] at ht
    exact (h.calm (.ship me n _)).calm (.worker ht rfl)
  | ends => exact h.handles ht rfl rfl

/-! All moves -/

theorem inHand?_plain (h : t.isWorker = false) : t.inHand? = none ∧ t.post? = none := by
  cases t <;> simp_all [Task.isWorker, Task.inHand?, Task.post?]

theorem Calm.plain (ht : r.tasks.get? me = some t) (he : t.isEnded = false) (hw : t.isWorker = false)
    (hw' : t'.isWorker = false) : Calm r (r.setTask me t') := by
  refine .setTask ht ((inHand?_plain hw').1.trans (inHand?_plain hw).1.symm) ?_
  intro c hp
  simp [(inHand?_plain hw).2, he] at hp

theorem delivered_tasks {d : Delivery} (h : Delivered r me d s) : s.tasks = r.tasks := by
  cases h <;> rfl

theorem HandedOff.step (h : HandedOff r) (hn : Numbered r) (hs : r.step me = some s) : HandedOff s := by
  obtain ⟨t, t', s', ht, he, hd, rfl⟩ := step_did hn hs
  cases hd with
  | nothing hq hts hw hw' _ => exact (h.calm (.quiet hq)).calm (.plain hts he hw hw')
  | delivered d _ hd hw hw' _ =>
    exact (h.delivered hd).calm (.plain (delivered_tasks hd ▸ ht) he hw hw')
  | worked n c w p hw _ hd =>
    subst hw
    exact h.works ht hd

theorem HandedOff.move {m : Move} (h : HandedOff r) (hn : Numbered r) (hm : r.move m = some s) : HandedOff s := by
  by_cases ht : ∃ me, m = .turn me
  · obtain ⟨me, rfl⟩ := ht
    exact h.step hn hm
  · exact h.calm (.quiet (move_quiet hn hm fun me he => ht ⟨me, he⟩))

theorem HandedOff.start (inventory : Cluster.Inventory) (network : Network) (every : Option Nat) :
    HandedOff (start inventory network every) := by
  refine ⟨fun _ => rfl, fun _ => rfl, ?_, ?_⟩
  · intro c task? t h
    simp [Relay.start] at h
  · intro w c c' t t' h
    simp [Relay.start] at h

theorem Reachable.handedOff (h : Reachable r) : HandedOff r :=
  h.holds HandedOff.start fun _ _ _ hr h hm => h.move hr.numbered hm

/-! Who has what was received -/

def Event.taker? (c : Nat) : Event → Option Nat
  | .taken c' task? _ => if c' = c then task? else none
  | _ => none

def takersOf (r : Relay) (c : Nat) : List Nat := (r.told (Event.taker? c)).dedup

theorem flatMap_once {ws : List Nat} {w : Nat} (hws : ws.Nodup) (hw : w ∈ ws) (x : Target) :
    ws.flatMap (fun v => (if some w = some v then some x else none).toList) = [x] := by
  induction ws with
  | nil => simp at hw
  | cons v rest ih =>
    obtain ⟨hv, hrest⟩ := List.nodup_cons.mp hws
    rw [List.flatMap_cons]
    by_cases hwv : w = v
    · subst hwv
      have hnone : rest.flatMap (fun v => (if some w = some v then some x else none).toList) = [] := by
        apply List.flatMap_eq_nil_iff.mpr
        intro u hu
        have hne : w ≠ u := fun he => hv (he ▸ hu)
        simp [hne]
      rw [hnone]
      simp
    · rw [ih hrest ((List.mem_cons.mp hw).resolve_left hwv)]
      simp [hwv]

theorem taken_perm {events : List Event} {ws : List Nat} (hws : ws.Nodup)
    (hin : ∀ task? x, Event.taken c task? x ∈ events → ∃ w ∈ ws, task? = some w)
    (honly : ∀ w ∈ ws, ∀ c' x, Event.taken c' (some w) x ∈ events → c' = c) :
    (events.filterMap (Event.received? c)).Perm (ws.flatMap fun w => events.filterMap (Event.receivedBy? w)) := by
  induction events with
  | nil => simp
  | cons e rest ih =>
    have hrest := ih (fun task? x hm => hin task? x (List.mem_cons_of_mem e hm))
      fun w hw c' x hm => honly w hw c' x (List.mem_cons_of_mem e hm)
    have split {f : Event → Option Target} : (e :: rest).filterMap f = (f e).toList ++ rest.filterMap f := by
      rw [List.filterMap_cons]
      cases f e <;> rfl
    have hnow : ws.flatMap (fun w => (e.receivedBy? w).toList) = (e.received? c).toList := by
      cases e with
      | taken c' task? x =>
        by_cases hc : c' = c
        · subst hc
          obtain ⟨w, hw, rfl⟩ := hin task? x List.mem_cons_self
          simpa [Event.received?, Event.receivedBy?] using flatMap_once hws hw x
        · have hne : ∀ w ∈ ws, task? ≠ some w := by
            rintro w hw rfl
            exact hc (honly w hw c' x List.mem_cons_self)
          rw [List.flatMap_eq_nil_iff.mpr]
          · simp [Event.received?, hc]
          · intro w hw
            simp [Event.receivedBy?, hne w hw]
      | _ => simp [Event.received?, Event.receivedBy?]
    simp only [split]
    rw [← hnow]
    exact (List.Perm.append_left _ hrest).trans (List.flatMap_append_perm ws _ _)

theorem HandedOff.shared (h : HandedOff r) (c : Nat) :
    (r.received c).Perm ((r.takersOf c).flatMap fun w => r.handledBy w ++ r.inHand w) := by
  have hmem (w : Nat) : w ∈ r.takersOf c ↔ ∃ x, Event.taken c (some w) x ∈ r.journal := by
    simp only [takersOf, List.mem_dedup, told, List.mem_reverse, List.mem_filterMap]
    constructor
    · rintro ⟨e, he, ht⟩
      cases e with
      | taken c' task? x =>
        simp only [Event.taker?] at ht
        split at ht
        · rename_i hc
          exact ⟨x, hc ▸ ht ▸ he⟩
        · simp at ht
      | _ => simp [Event.taker?] at ht
    · rintro ⟨x, he⟩
      exact ⟨_, he, by simp [Event.taker?]⟩
  have hperm : (r.journal.filterMap (Event.received? c)).Perm
      ((r.takersOf c).flatMap fun w => r.journal.filterMap (Event.receivedBy? w)) := by
    refine taken_perm (List.nodup_dedup _) ?_ ?_
    · intro task? x hm
      obtain ⟨w, rfl, -⟩ := h.takers c task? x hm
      exact ⟨w, (hmem w).mpr ⟨x, hm⟩, rfl⟩
    · intro w hw c' x hm
      obtain ⟨y, hy⟩ := (hmem w).mp hw
      exact h.faithful w c' c x y hm hy
  refine (List.reverse_perm _).trans (hperm.trans (List.Perm.flatMap_left _ fun w _ => ?_))
  rw [← h.accounted w]
  exact (List.reverse_perm _).symm

end ScrapeRelay.Relay

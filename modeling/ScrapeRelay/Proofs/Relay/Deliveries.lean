import ScrapeRelay.Proofs.Relay.Sealing

/-!
What a delivery brings. The targets of a batch enter one channel in order; those that stand in its line are the
last ones that were offered. Other tasks only let them in.
-/

namespace ScrapeRelay.Relay

def Event.brought? (me : Nat) : Event → Option (Nat × Target)
  | .entered c task? t => if task? = some me then some (c, t) else none
  | _ => none

def brought (r : Relay) (me : Nat) : List (Nat × Target) := r.told (Event.brought? me)

def broughtTo (r : Relay) (me c : Nat) : List Target :=
  (r.brought me).filterMap fun b => if b.1 = c then some b.2 else none

def inLine (r : Relay) (me c : Nat) : List Target := ((r.channel c).blocked.filter (·.1 == me)).map (·.2)

structure Clear (r : Relay) (me : Nat) (before : List (Nat × Target)) : Prop where
  brought : r.brought me = before
  line : ∀ c, r.inLine me c = []

/-- After what a task had brought before, a part of a batch went to a channel: it was brought in but for what
stands in line there. -/
structure Carries (r : Relay) (me : Nat) (before : List (Nat × Target)) (c : Nat)
    (sent : List Target) : Prop where
  behind : before <+: r.brought me
  here : r.brought me ++ (r.inLine me c).map (c, ·) = before ++ sent.map (c, ·)
  elsewhere : ∀ i, i ≠ c → r.inLine me i = []

structure Admits (r s : Relay) (me c : Nat) (ts : List Target) : Prop where
  brought : s.brought me = r.brought me ++ ts.map (c, ·)
  line : r.inLine me c = ts ++ s.inLine me c
  others : ∀ i, i ≠ c → s.inLine me i = r.inLine me i

variable {r s : Relay} {me n c i w : Nat} {t t' : Task} {k : Key} {m : Move}
  {before : List (Nat × Target)} {batch sent rest : List Target} {limit : Option Limit}

theorem Admits.none (hb : s.brought me = r.brought me) (hl : ∀ i, s.inLine me i = r.inLine me i) (c : Nat) :
    Admits r s me c [] := by
  refine ⟨?_, ?_, fun i _ => hl i⟩
  · simpa using hb
  · exact (hl c).symm

theorem Admits.of_clear {ts : List Target} (ha : Admits r s me i ts) (hl : ∀ c, r.inLine me c = []) :
    ts = [] ∧ ∀ c, s.inLine me c = [] := by
  have hline := ha.line
  rw [hl i] at hline
  obtain ⟨rfl, hs⟩ := List.append_eq_nil_iff.mp hline.symm
  refine ⟨rfl, fun c => ?_⟩
  by_cases hc : c = i
  · exact hc ▸ hs
  · exact (ha.others c hc).trans (hl c)

theorem Admits.behind {ts : List Target} (ha : Admits r s me i ts) (h : before <+: r.brought me) :
    before <+: s.brought me := ha.brought ▸ h.trans (List.prefix_append _ _)

theorem Clear.admits {ts : List Target} (h : Clear r me before) (ha : Admits r s me i ts) : Clear s me before := by
  obtain ⟨rfl, hl⟩ := ha.of_clear h.line
  exact ⟨by simpa [h.brought] using ha.brought, hl⟩

theorem Carries.admits {ts : List Target} (h : Carries r me before c sent) (ha : Admits r s me i ts) :
    Carries s me before c sent := by
  by_cases hi : i = c
  · subst hi
    refine ⟨ha.behind h.behind, ?_, fun j hj => (ha.others j hj).trans (h.elsewhere j hj)⟩
    rw [ha.brought, ← h.here, ha.line, List.map_append, List.append_assoc]
  · have hline := ha.line
    rw [h.elsewhere i hi] at hline
    obtain ⟨rfl, hs⟩ := List.append_eq_nil_iff.mp hline.symm
    refine ⟨ha.behind h.behind, ?_, fun j hj => ?_⟩
    · rw [ha.brought, ha.others c (Ne.symm hi), List.map_nil, List.append_nil, h.here]
    · by_cases hji : j = i
      · exact hji ▸ hs
      · exact (ha.others j hji).trans (h.elsewhere j hj)

theorem Carries.clear (h : Carries r me before c sent) (hl : r.inLine me c = []) :
    Clear r me (before ++ sent.map (c, ·)) := by
  refine ⟨by simpa [hl] using h.here, fun i => ?_⟩
  by_cases hi : i = c
  · exact hi ▸ hl
  · exact h.elsewhere i hi

theorem Clear.carries (h : Clear r me (before ++ sent.map (c, ·))) : Carries r me before c sent :=
  ⟨h.brought ▸ List.prefix_append _ _, by simp [h.brought, h.line], fun i _ => h.line i⟩

/-! The moves of others -/

theorem inLine_setChannel (r : Relay) (me c i : Nat) (ch : Channel) :
    (r.setChannel c ch).inLine me i =
      if i = c then (ch.blocked.filter (·.1 == me)).map (·.2) else r.inLine me i := by
  rw [inLine, channel_setChannel]
  split <;> rfl

theorem brought_record (r : Relay) {e : Event} (he : e.brought? me = none) :
    (r.record e).brought me = r.brought me := by
  have hj : (r.record e).journal = [e] ++ r.journal := rfl
  exact told_same hj (by simp [he])

theorem Still.inLine (h : Still r s c) : s.inLine me c = r.inLine me c := by
  rw [Relay.inLine, Relay.inLine, h.blocked]

theorem Quiet.admits (h : Quiet r s) (me c : Nat) : Admits r s me c [] := by
  obtain ⟨events, hj, he⟩ := h.journal
  refine .none (told_same hj fun e hm => ?_) (fun i => (Still.quiet h i).inLine) c
  have := he e hm
  cases e <;> simp_all [Event.isWork, Event.brought?]

theorem offer?_blocked {ch ch' : Channel} {x : Target} (h : ch.offer? x = some ch') :
    ch'.blocked = ch.blocked := by
  rw [Channel.offer?] at h
  split at h
  · rw [← Option.some.inj h]
  · split at h
    · rw [← Option.some.inj h]
    · simp at h

theorem Delivered.admits {d : Delivery} (h : Delivered r w d s) (hw : w ≠ me) (c : Nat) :
    Admits r s me c [] := by
  have line {i : Nat} {ch : Channel}
      (hb : ch.blocked.filter (·.1 == me) = (r.channel i).blocked.filter (·.1 == me))
      (j : Nat) : (r.setChannel i ch).inLine me j = r.inLine me j := by
    rw [inLine_setChannel, hb]
    split
    · rename_i hj
      rw [hj]
      rfl
    · rfl
  cases h with
  | @enters i x ch hc ho =>
    have hl : ∀ j, ((r.setChannel i ch).record (.entered i (some w) x)).inLine me j = r.inLine me j :=
      line (by rw [offer?_blocked ho])
    have hj : ((r.setChannel i ch).record (.entered i (some w) x)).brought me = r.brought me :=
      brought_record (r.setChannel i ch) (by simp [Event.brought?, hw])
    exact .none hj hl c
  | @blocks i x hc ho =>
    have hb : ((r.channel i).block w x).blocked.filter (·.1 == me) =
        (r.channel i).blocked.filter (·.1 == me) := by
      simp [Channel.block, hw]
    have hj : (r.setChannel i ((r.channel i).block w x)).brought me = r.brought me := rfl
    exact .none hj (line hb) c
  | @withdraws i hc =>
    have hb : ((r.channel i).withdraw w).blocked.filter (·.1 == me) =
        (r.channel i).blocked.filter (·.1 == me) := by
      rw [Channel.withdraw, List.filter_filter]
      apply List.filter_congr
      intro b _
      by_cases hb : b.1 = me <;> simp [hb, Ne.symm hw]
    have hj : (r.withdraw w i).brought me = r.brought me := rfl
    exact .none hj (line hb) c

theorem take?_admits {x : Target} (h : r.take? c (some w) = some (x, s)) (me : Nat) :
    Admits r s me c (((r.channel c).admitted.filter (·.1 == me)).map (·.2)) := by
  refine ⟨?_, ?_, fun i hi => (Still.take? h hi).inLine⟩
  · rw [brought, told_taken (Event.brought? me) (take?_journal h)]
    simp only [Event.brought?, Option.toList_none, List.append_nil]
    congr 1
    rw [List.map_map]
    induction (r.channel c).admitted with
    | nil => rfl
    | cons b rest ih =>
      rw [List.filterMap_cons, ih]
      by_cases hb : b.1 = me <;> simp [hb]
  · rw [(take?_eq h).2]
    change _ = _ ++ (r.setChannel c (r.channel c).take).inLine me c
    rw [inLine_setChannel, if_pos rfl, inLine, ← List.map_append, ← List.filter_append]
    congr 2
    exact (List.take_append_drop _ _).symm

theorem Worked.admits {p : Pool} {x : Worker} (h : Worked r w n c p x s t') (me : Nat) :
    ∃ i ts, Admits r s me i ts := by
  have line {s : Relay} (hb : s.brought me = r.brought me) (hl : ∀ i, Still r s i) :
      ∃ i ts, Admits r s me i ts :=
    ⟨c, [], .none hb (fun i => (hl i).inLine) c⟩
  cases h with
  | @takes _ y s' _ inLine hs _ =>
    have ha := take?_admits hs me
    cases inLine
    · exact ⟨_, _, ha⟩
    · have hl (i : Nat) : (s'.leaveLine w c).inLine me i = s'.inLine me i := (Still.leaveLine s' w c i).inLine
      exact ⟨_, _, ha.brought, by simpa [hl] using ha.line, fun i hi => (hl i).trans (ha.others i hi)⟩
  | waits _ hs =>
    split
    · exact line rfl fun _ => .of rfl rfl
    · exact line rfl (.line ((r.channel c).await w) rfl rfl)
  | leaves _ inLine =>
    cases inLine
    · exact line rfl fun _ => .of rfl rfl
    · exact line rfl (.leaveLine r w c)
  | scrapes => exact line rfl fun _ => .of rfl rfl
  | @misses x f hs =>
    have hj : ((r.setStatus n p p.status.countError).record (.handled w x)).brought me = r.brought me :=
      brought_record (r.setStatus n p p.status.countError) rfl
    exact line hj fun i => (Still.of rfl rfl : Still r (r.setStatus n p p.status.countError) i).trans (.record rfl)
  | @ships x m rest =>
    obtain ⟨events, hj, he⟩ := (Calm.ship w n m : Calm r (r.ship w n p m)).journal
    refine line (told_same hj fun e hm => ?_) (.ship r w n p m)
    have := he e hm
    cases e <;> simp_all [Event.isPassing, Event.brought?]
  | ends => exact line (brought_record r rfl) fun _ => .record rfl

theorem Admits.setTask {ts : List Target} (h : Admits r s me c ts) (w : Nat) (t : Task) :
    Admits r (s.setTask w t) me c ts := ⟨h.brought, h.line, h.others⟩

theorem move_admits (hn : Numbered r) (hm : r.move m = some s) (hne : m ≠ .turn me) :
    ∃ i ts, Admits r s me i ts := by
  by_cases htu : ∃ w, m = .turn w
  · obtain ⟨w, rfl⟩ := htu
    have hw : w ≠ me := by
      rintro rfl
      exact hne rfl
    obtain ⟨t, t', s', -, -, hd, rfl⟩ := step_did hn hm
    cases hd with
    | nothing hq => exact ⟨0, [], (hq.admits me 0).setTask w t'⟩
    | delivered _ _ hs => exact ⟨0, [], (hs.admits hw 0).setTask w t'⟩
    | worked _ _ _ _ _ _ hs =>
      obtain ⟨i, ts, ha⟩ := hs.admits me
      exact ⟨i, ts, ha.setTask w t'⟩
  · exact ⟨0, [], (move_quiet hn hm fun w he => htu ⟨w, he⟩).admits me 0⟩

theorem filterMap_sublist {α β : Type} {f g : α → Option β} (h : ∀ a b, f a = some b → g a = some b)
    (as : List α) : (as.filterMap f).Sublist (as.filterMap g) := by
  induction as with
  | nil => exact .slnil
  | cons a as ih =>
    cases hf : f a with
    | some b => simpa [hf, h a b hf] using ih
    | none =>
      cases hg : g a with
      | none => simpa [hf, hg] using ih
      | some b => simpa [hf, hg] using ih.cons b

theorem broughtTo_pushed (r : Relay) (me c : Nat) : (r.broughtTo me c).Sublist (r.pushed c) := by
  rw [broughtTo, brought, pushed, told, told, ← List.filterMap_reverse, ← List.filterMap_reverse,
    List.filterMap_filterMap]
  refine filterMap_sublist (fun e x he => ?_) _
  obtain ⟨b, hb, he⟩ := Option.bind_eq_some_iff.mp he
  cases e with
  | entered i task? y =>
    rw [Event.brought?] at hb
    split at hb
    · cases hb
      exact he
    · cases hb
  | _ => cases hb

/-! Turns of a delivery -/

inductive Forwarded (r : Relay) (me : Nat) : Delivery → Relay → Delivery.Progress → Prop
  | finds {k : Key} {rest : List Target} {limit : Option Limit} {c : Nat}
      (hc : r.registry.channels.get? k = some c) :
      Forwarded r me ⟨k, rest, limit, .unaddressed⟩ r (.going ⟨k, rest, limit, .pushing c⟩)
  | misses {k : Key} {rest : List Target} {limit : Option Limit} (hc : r.registry.channels.get? k = none) :
      Forwarded r me ⟨k, rest, limit, .unaddressed⟩ r (.over (.error (unknownChannel k)))
  | finishes {k : Key} {limit : Option Limit} {c : Nat} :
      Forwarded r me ⟨k, [], limit, .pushing c⟩ r (.over (.ok ()))
  | refused {k : Key} {x : Target} {rest : List Target} {limit : Option Limit} {c : Nat}
      (hc : r.hasReceiver c = false) :
      Forwarded r me ⟨k, x :: rest, limit, .pushing c⟩ r (.over (.error (closedChannel k)))
  | enters {k : Key} {x : Target} {rest : List Target} {limit : Option Limit} {c : Nat} {ch : Channel}
      (ho : (r.channel c).offer? x = some ch) :
      Forwarded r me ⟨k, x :: rest, limit, .pushing c⟩ ((r.setChannel c ch).record (.entered c (some me) x))
        (.going ⟨k, rest, limit, .pushing c⟩)
  | blocks {k : Key} {x : Target} {rest : List Target} {limit : Option Limit} {c : Nat} :
      Forwarded r me ⟨k, x :: rest, limit, .pushing c⟩ (r.setChannel c ((r.channel c).block me x))
        (.going ⟨k, rest, limit, .stuck c⟩)
  | resumes {k : Key} {rest : List Target} {limit : Option Limit} {c : Nat}
      (hb : (r.channel c).isBlocked me = false) :
      Forwarded r me ⟨k, rest, limit, .stuck c⟩ r (.going ⟨k, rest, limit, .pushing c⟩)
  | leaves {k : Key} {rest : List Target} {limit : Option Limit} {c : Nat} (hc : r.hasReceiver c = false) :
      Forwarded r me ⟨k, rest, limit, .stuck c⟩ (r.withdraw me c) (.over (.error (closedChannel k)))
  | expires {k : Key} {rest : List Target} {l : Limit} {c : Nat} (hl : l.due ≤ r.clock) :
      Forwarded r me ⟨k, rest, some l, .stuck c⟩ (r.withdraw me c) (.over (.error (lateDelivery k l)))

theorem deliver_forwarded {d : Delivery} {p : Delivery.Progress} (h : r.deliver me d = some (s, p)) :
    Forwarded r me d s p := by
  obtain ⟨k, rest, limit, stage⟩ := d
  cases stage with
  | unaddressed =>
    simp only [deliver] at h
    split at h
    · rename_i c hc
      obtain ⟨rfl, rfl⟩ := Prod.mk.inj (Option.some.inj h)
      exact .finds hc
    · rename_i hc
      obtain ⟨rfl, rfl⟩ := Prod.mk.inj (Option.some.inj h)
      exact .misses hc
  | pushing c =>
    simp only [deliver, push] at h
    cases rest with
    | nil =>
      obtain ⟨rfl, rfl⟩ := Prod.mk.inj (Option.some.inj h)
      exact .finishes
    | cons x rest =>
      cases hrec : r.hasReceiver c with
      | false =>
        simp only [hrec, Bool.false_eq_true, if_false] at h
        obtain ⟨rfl, rfl⟩ := Prod.mk.inj (Option.some.inj h)
        exact .refused hrec
      | true =>
        cases ho : (r.channel c).offer? x with
        | some ch =>
          simp only [hrec, if_true, offer?, ho, Option.map_some] at h
          obtain ⟨rfl, rfl⟩ := Prod.mk.inj (Option.some.inj h)
          exact .enters ho
        | none =>
          simp only [hrec, if_true, offer?, ho, Option.map_none] at h
          obtain ⟨rfl, rfl⟩ := Prod.mk.inj (Option.some.inj h)
          exact .blocks
  | stuck c =>
    simp only [deliver, resume] at h
    cases hb : (r.channel c).isBlocked me with
    | false =>
      simp only [hb, Bool.not_false, if_true] at h
      obtain ⟨rfl, rfl⟩ := Prod.mk.inj (Option.some.inj h)
      exact .resumes hb
    | true =>
      cases hrec : r.hasReceiver c with
      | false =>
        simp only [hb, hrec, Bool.not_true, Bool.not_false, Bool.false_eq_true, if_false, if_true] at h
        obtain ⟨rfl, rfl⟩ := Prod.mk.inj (Option.some.inj h)
        exact .leaves hrec
      | true =>
        simp only [hb, hrec, Bool.not_true, Bool.false_eq_true, if_false] at h
        cases limit with
        | none => simp at h
        | some l =>
          by_cases hl : l.due ≤ r.clock
          · simp only [hl, if_true] at h
            obtain ⟨rfl, rfl⟩ := Prod.mk.inj (Option.some.inj h)
            exact .expires hl
          · simp [hl] at h

inductive Conveyed (r : Relay) (me : Nat) (before : List (Nat × Target)) (batch : List Target) : Delivery → Prop
  | unaddressed {k : Key} {limit : Option Limit} (h : Clear r me before) :
      Conveyed r me before batch ⟨k, batch, limit, .unaddressed⟩
  | pushing {k : Key} {limit : Option Limit} {c : Nat} {sent rest : List Target} (hb : sent ++ rest = batch)
      (h : Clear r me (before ++ sent.map (c, ·))) : Conveyed r me before batch ⟨k, rest, limit, .pushing c⟩
  | stuck {k : Key} {limit : Option Limit} {c : Nat} {sent rest : List Target} (hb : sent ++ rest = batch)
      (h : Carries r me before c sent) : Conveyed r me before batch ⟨k, rest, limit, .stuck c⟩

/-- What a delivery comes to: there is no channel, the whole batch is in it, or a first part of the batch is,
where its time was up or nobody takes from the channel any more. -/
inductive Delivery.Outcome
  | unknown
  | whole (channel : Nat)
  | late (channel : Nat) (part : List Target)
  | closed (channel : Nat) (part : List Target)

namespace Delivery.Outcome

def channel? : Outcome → Option Nat
  | unknown => none
  | whole c | late c _ | closed c _ => some c

def part (batch : List Target) : Outcome → List Target
  | unknown => []
  | whole _ => batch
  | late _ part | closed _ part => part

def brings (batch : List Target) (o : Outcome) : List (Nat × Target) :=
  o.channel?.elim [] fun c => (o.part batch).map (c, ·)

end Delivery.Outcome

inductive Concludes (r : Relay) (batch : List Target) :
    Delivery → Except Failure Unit → Delivery.Outcome → Prop
  | unknown {k : Key} {rest : List Target} {limit : Option Limit} (hc : r.registry.channels.get? k = none) :
      Concludes r batch ⟨k, rest, limit, .unaddressed⟩ (.error (unknownChannel k)) .unknown
  | whole {k : Key} {limit : Option Limit} {c : Nat} :
      Concludes r batch ⟨k, [], limit, .pushing c⟩ (.ok ()) (.whole c)
  | late {k : Key} {rest part : List Target} {l : Limit} {c : Nat} (hl : l.due ≤ r.clock) (hp : part <+: batch) :
      Concludes r batch ⟨k, rest, some l, .stuck c⟩ (.error (lateDelivery k l)) (.late c part)
  | closed {d : Delivery} {c : Nat} {part : List Target} (hd : d.channel? = some c) (hc : r.hasReceiver c = false)
      (hp : part <+: batch) : Concludes r batch d (.error (closedChannel d.key)) (.closed c part)

theorem Concludes.isPrefix {d : Delivery} {result : Except Failure Unit} {o : Delivery.Outcome}
    (h : Concludes r batch d result o) : o.part batch <+: batch := by
  cases h with
  | unknown => exact List.nil_prefix
  | whole => exact List.prefix_refl _
  | late _ hp => exact hp
  | closed _ _ hp => exact hp

theorem Conveyed.admits {d : Delivery} {ts : List Target} (h : Conveyed r me before batch d)
    (ha : Admits r s me i ts) : Conveyed s me before batch d := by
  cases h with
  | unaddressed h => exact .unaddressed (h.admits ha)
  | pushing hb h => exact .pushing hb (h.admits ha)
  | stuck hb h => exact .stuck hb (h.admits ha)

theorem Clear.enters {x : Target} {ch : Channel} (h : Clear r me (before ++ sent.map (c, ·)))
    (ho : (r.channel c).offer? x = some ch) :
    Clear ((r.setChannel c ch).record (.entered c (some me) x)) me (before ++ (sent ++ [x]).map (c, ·)) := by
  have line (i : Nat) : ((r.setChannel c ch).record (.entered c (some me) x)).inLine me i = r.inLine me i := by
    change (r.setChannel c ch).inLine me i = _
    rw [inLine_setChannel, offer?_blocked ho]
    split
    · rename_i hi
      rw [hi]
      rfl
    · rfl
  have hb : ((r.setChannel c ch).record (.entered c (some me) x)).brought me = r.brought me ++ [(c, x)] := by
    have hj : ((r.setChannel c ch).record (.entered c (some me) x)).journal = [.entered c (some me) x] ++
        r.journal := rfl
    rw [Relay.brought, told_append _ hj]
    simp [Event.brought?, Relay.brought]
  refine ⟨?_, fun i => (line i).trans (h.line i)⟩
  rw [hb, h.brought]
  simp

theorem Clear.blocks (x : Target) (h : Clear r me (before ++ sent.map (c, ·))) :
    Carries (r.setChannel c ((r.channel c).block me x)) me before c (sent ++ [x]) := by
  have hx : (r.setChannel c ((r.channel c).block me x)).inLine me c = r.inLine me c ++ [x] := by
    rw [inLine_setChannel, if_pos rfl]
    simp [Channel.block, inLine]
  have hb : (r.setChannel c ((r.channel c).block me x)).brought me = before ++ sent.map (c, ·) := h.brought
  refine ⟨hb ▸ List.prefix_append _ _, ?_, fun i hi => ?_⟩
  · rw [hx, h.line, hb]
    simp
  · rw [inLine_setChannel, if_neg hi]
    exact h.line i

theorem Carries.part (h : Carries r me before c sent) :
    ∃ part, r.brought me = before ++ part.map (c, ·) ∧ part ++ r.inLine me c = sent := by
  obtain ⟨new, hnew⟩ := h.behind
  have here : new ++ (r.inLine me c).map (c, ·) = sent.map (c, ·) := by
    have := h.here
    rwa [← hnew, List.append_assoc, List.append_cancel_left_eq] at this
  obtain ⟨part, after, rfl, rfl, hline⟩ := List.map_eq_append_iff.mp here.symm
  have hinj : Function.Injective fun x : Target => (c, x) := fun _ _ h => (Prod.mk.inj h).2
  exact ⟨part, hnew.symm, by rw [List.map_injective_iff.mpr hinj hline]⟩

theorem Carries.withdraws (h : Carries r me before c sent) :
    ∃ part, part <+: sent ∧ Clear (r.withdraw me c) me (before ++ part.map (c, ·)) := by
  obtain ⟨part, hnew, rfl⟩ := h.part
  refine ⟨part, List.prefix_append part _, hnew, fun i => ?_⟩
  rw [withdraw, inLine_setChannel]
  split
  · simp [Channel.withdraw, List.filter_filter]
  · exact h.elsewhere i (by assumption)

theorem inLine_unblocked (h : (r.channel c).isBlocked me = false) : r.inLine me c = [] := by
  rw [inLine, List.map_eq_nil_iff, List.filter_eq_nil_iff]
  simpa [Channel.isBlocked] using h

theorem Clear.setTask (h : Clear r me before) (w : Nat) (t : Task) : Clear (r.setTask w t) me before :=
  ⟨h.brought, h.line⟩

theorem Conveyed.setTask {d : Delivery} (h : Conveyed r me before batch d) (w : Nat) (t : Task) :
    Conveyed (r.setTask w t) me before batch d := by
  cases h with
  | unaddressed h => exact .unaddressed (h.setTask w t)
  | pushing hb h => exact .pushing hb (h.setTask w t)
  | stuck hb h => exact .stuck hb ⟨h.behind, h.here, h.elsewhere⟩

theorem Conveyed.going {d d' : Delivery} (h : Conveyed r me before batch d) (hf : Forwarded r me d s (.going d')) :
    Conveyed s me before batch d' := by
  cases hf with
  | finds hc =>
    cases h with
    | unaddressed h => exact .pushing (List.nil_append batch) (by simpa using h)
  | enters ho =>
    cases h with
    | pushing hb h => exact .pushing (by simpa using hb) (h.enters ho)
  | blocks =>
    cases h with
    | pushing hb h => exact .stuck (by simpa using hb) (h.blocks _)
  | resumes hb =>
    cases h with
    | stuck hs h => exact .pushing hs (h.clear (inLine_unblocked hb))

theorem Conveyed.over {d : Delivery} {result : Except Failure Unit} (h : Conveyed r me before batch d)
    (hf : Forwarded r me d s (.over result)) :
    ∃ o, Concludes r batch d result o ∧ Clear s me (before ++ o.brings batch) := by
  cases hf with
  | misses hc =>
    cases h with
    | unaddressed h =>
      exact ⟨.unknown, .unknown hc, by simpa [Delivery.Outcome.brings, Delivery.Outcome.channel?] using h⟩
  | @finishes k limit c =>
    cases h with
    | pushing hb h =>
      obtain rfl : _ = batch := by simpa using hb
      exact ⟨.whole c, .whole, h⟩
  | @refused k x rest limit c hc =>
    cases h with
    | @pushing _ _ _ sent _ hb h => exact ⟨.closed c sent, .closed rfl hc ⟨_, hb⟩, h⟩
  | @leaves k rest limit c hc =>
    cases h with
    | stuck hb h =>
      obtain ⟨part, hp, h⟩ := h.withdraws
      exact ⟨.closed c part, .closed rfl hc (hp.trans ⟨_, hb⟩), h⟩
  | @expires k rest l c hl =>
    cases h with
    | stuck hb h =>
      obtain ⟨part, hp, h⟩ := h.withdraws
      exact ⟨.late c part, .late hl (hp.trans ⟨_, hb⟩), h⟩

end ScrapeRelay.Relay

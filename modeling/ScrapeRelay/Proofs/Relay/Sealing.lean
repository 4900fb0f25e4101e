import ScrapeRelay.Proofs.Relay.Entries
import ScrapeRelay.Proofs.Relay.Handoff
import ScrapeRelay.Proofs.Relay.Passages

/-!
Sealed channels: they are empty, and nobody can send to them any more. A worker that finds nothing to take and
no sender has found such a channel, and what is sealed stays sealed.
-/

namespace ScrapeRelay.Relay

/-- A channel that is empty and that nobody can send to any more. -/
structure Sealed (r : Relay) (c : Nat) : Prop where
  known : c < r.fresh
  unnamed : ∀ k, r.registry.channels.get? k ≠ some c
  unheld : ∀ w t, r.tasks.get? w = some t → t.outbound? ≠ some c
  unsent : c ∉ r.senders
  queue : (r.channel c).queue = []
  blocked : (r.channel c).blocked = []

structure Still (r s : Relay) (c : Nat) : Prop where
  queue : (s.channel c).queue = (r.channel c).queue
  blocked : (s.channel c).blocked = (r.channel c).blocked
  pushed : s.pushed c = r.pushed c

variable {r s : Relay} {me n c i : Nat} {t t' : Task} {k : Key}

namespace Still

theorem of (hc : s.channel c = r.channel c) (hp : s.pushed c = r.pushed c) : Still r s c :=
  ⟨by rw [hc], by rw [hc], hp⟩

theorem trans {t : Relay} (h : Still r s c) (ht : Still s t c) : Still r t c :=
  ⟨ht.queue.trans h.queue, ht.blocked.trans h.blocked, ht.pushed.trans h.pushed⟩

theorem quiet (h : Quiet r s) (c : Nat) : Still r s c := by
  obtain ⟨events, hj, he⟩ := h.journal
  refine ⟨(Calm.quiet h).queue c, ?_, told_same hj ?_⟩
  · simp only [channel, Dict.getD]
    rcases h.channels c with hc | ⟨hn, size, hc⟩
    · rw [hc]
    · rw [hn, hc]
      rfl
  · intro e hm
    have := he e hm
    cases e <;> simp_all [Event.isWork, Event.pushed?]

theorem setTask (h : Still r s c) : Still r (s.setTask me t) c := ⟨h.queue, h.blocked, h.pushed⟩

theorem setChannel (r : Relay) (ch : Channel) (hi : i ≠ c) : Still r (r.setChannel c ch) i :=
  of ((channel_setChannel ..).trans (if_neg hi)) rfl

theorem record {e : Event} (he : e.pushed? c = none) : Still r (r.record e) c := by
  have hj : (r.record e).journal = [e] ++ r.journal := rfl
  exact of rfl (told_same hj (by simp [he]))

theorem delivered {d : Delivery} (hd : Delivered r me d s) (hi : d.channel? ≠ some i) : Still r s i := by
  have other {c : Nat} (hc : d.channel? = some c) : i ≠ c := by
    rintro rfl
    exact hi hc
  cases hd with
  | enters hc ho =>
    refine (setChannel r _ (other hc)).trans (record ?_)
    simpa [Event.pushed?] using (other hc).symm
  | blocks hc ho => exact setChannel r _ (other hc)
  | withdraws hc => exact setChannel r _ (other hc)

theorem line (ch : Channel) (hq : ch.queue = (r.channel c).queue)
    (hb : ch.blocked = (r.channel c).blocked) (i : Nat) : Still r (r.setChannel c ch) i := by
  by_cases hi : i = c
  · subst hi
    have hc : (r.setChannel i ch).channel i = ch := (channel_setChannel r i i ch).trans (if_pos rfl)
    exact ⟨by rw [hc, hq], by rw [hc, hb], rfl⟩
  · exact setChannel r ch hi

theorem leaveLine (r : Relay) (me c i : Nat) : Still r (r.leaveLine me c) i := by
  refine line _ (leave_queue _ me) ?_ i
  rw [Channel.leave]
  split
  · rfl
  · split <;> rfl

theorem take? {x : Target} (hs : r.take? c (some me) = some (x, s)) (hi : i ≠ c) : Still r s i := by
  obtain ⟨-, rfl⟩ := take?_eq hs
  refine of ?_ ?_
  · exact (channel_setChannel r c i (r.channel c).take).trans (if_neg hi)
  · apply (told_taken (c := c) (x := x) (w := me) (Event.pushed? i) rfl).trans
    simp [Event.pushed?, Ne.symm hi]
    rfl

theorem ship (r : Relay) (me n : Nat) (p : Pool) (m : Metric) (i : Nat) : Still r (r.ship me n p m) i := by
  have hc : (r.ship me n p m).channel i = r.channel i := by
    rw [Relay.ship]
    split <;> rfl
  obtain ⟨events, hj, he⟩ := (Calm.ship me n m : Calm r (r.ship me n p m)).journal
  exact of hc (told_same hj fun e hm => (passing_none (he e hm) i).1)

theorem worked {p : Pool} {w : Worker} (hw : Worked r me n c p w s t')
    (hi : i ≠ c ∨ (r.channel i).next? = none) : Still r s i := by
  cases hw with
  | takes hw inLine hs =>
    have hne : i ≠ c := by
      apply hi.elim id
      intro hn
      rintro rfl
      rw [(take?_eq hs).1] at hn
      simp at hn
    cases inLine
    · exact take? hs hne
    · exact (take? hs hne).trans (leaveLine _ me c i)
  | waits hw hs =>
    split
    · exact of rfl rfl
    · exact line ((r.channel c).await me) rfl rfl i
  | leaves hw inLine hs =>
    cases inLine
    · exact of rfl rfl
    · exact leaveLine r me c i
  | scrapes => exact of rfl rfl
  | misses => exact (of rfl rfl : Still r (r.setStatus n p p.status.countError) i).trans (record rfl)
  | ships => exact ship r me n p _ i
  | ends => exact record rfl

end Still

/-! Sealed channels -/

theorem next?_empty {ch : Channel} : ch.next? = none ↔ ch.queue = [] ∧ ch.blocked = [] := by
  unfold Channel.next? Channel.refill
  rw [List.head?_eq_none_iff, List.append_eq_nil_iff, List.map_eq_nil_iff]
  apply and_congr_right
  intro hq
  rw [Channel.admitted, Channel.depth, hq, List.length_nil, List.take_eq_nil_iff]
  simp

theorem hasSender_false :
    r.hasSender c = false ↔ c ∉ r.senders ∧ (∀ k, r.registry.channels.get? k ≠ some c) ∧
    ∀ w t, r.tasks.get? w = some t → t.outbound? ≠ some c := by
  have hv : r.registry.channels.values.contains c = false ↔ ∀ k, r.registry.channels.get? k ≠ some c := by
    rw [← Bool.not_eq_true, List.contains_iff_mem, Dict.mem_values]
    simp
  have ht : r.tasks.values.any (·.sendsTo c) = false ↔ ∀ w t, r.tasks.get? w = some t →
      t.outbound? ≠ some c := by
    rw [List.any_eq_false]
    simp only [Dict.mem_values, Task.sendsTo, beq_iff_eq]
    exact ⟨fun h w t hw => h t ⟨w, hw⟩, fun h t ⟨w, hw⟩ => h w t hw⟩
  rw [hasSender, Bool.or_eq_false_iff, Bool.or_eq_false_iff, hv, ht, and_assoc]
  simp

namespace Sealed

theorem next? (h : Sealed r c) : (r.channel c).next? = none := next?_empty.mpr ⟨h.queue, h.blocked⟩

theorem still (h : Sealed r c) (hc : Still r s c) (hf : r.fresh ≤ s.fresh)
    (hr : ∀ k, s.registry.channels.get? k ≠ some c)
    (ht : ∀ w t, s.tasks.get? w = some t → t.outbound? ≠ some c)
    (hs : s.senders = r.senders) : Sealed s c :=
  ⟨Nat.lt_of_lt_of_le h.known hf, hr, ht, hs ▸ h.unsent, hc.queue.trans h.queue, hc.blocked.trans h.blocked⟩

theorem quiet (h : Sealed r c) (hq : Quiet r s) : Sealed s c := by
  refine h.still (.quiet hq c) hq.fresh ?_ ?_ hq.senders
  · intro k hk
    rcases hq.given k c hk with hk | hk
    · exact h.unnamed k hk
    · exact Nat.not_le_of_lt h.known hk
  · intro w t ht
    have hr := hq.tasks w
    rw [ht] at hr
    generalize hu : r.tasks.get? w = t? at hr
    cases hr with
    | kept ha =>
      cases ha with
      | same => exact h.unheld w t hu
      | reporters => simp [Task.outbound?, Task.delivery?]
    | worker n c => simp [Task.outbound?, Task.delivery?]
    | plain t hw ho => simp [ho]

theorem setTask (h : Sealed r c) (ht : t.outbound? ≠ some c) : Sealed (r.setTask me t) c := by
  have hunheld := Dict.forall_insert (k := me) h.unheld ht
  exact h.still ⟨rfl, rfl, rfl⟩ (Nat.le_refl _) h.unnamed hunheld rfl

theorem apart (h : Sealed r c) (ha : Apart r s) (hc : Still r s c) (hf : s.fresh = r.fresh) : Sealed s c :=
  h.still hc (Nat.le_of_eq hf.symm) (fun k => ha.registry ▸ h.unnamed k) (fun w t => ha.tasks ▸ h.unheld w t)
    ha.senders

theorem held (h : Sealed r c) (ht : r.tasks.get? me = some t) (hh : Held r t.delivery? t'.delivery?) :
    t'.outbound? ≠ some c := by
  intro hc
  rcases hh c hc with hc | ⟨k, hk⟩
  · exact h.unheld me t ht hc
  · exact h.unnamed k hk

theorem step (h : Sealed r c) (hn : Numbered r) (hs : r.step me = some s) : Sealed s c ∧ Still r s c := by
  obtain ⟨t, t', s', ht, -, hd, rfl⟩ := step_did hn hs
  have hf : s'.fresh = r.fresh := (hn.step hs).2
  cases hd with
  | nothing hq hts hw hw' hh => exact ⟨(h.quiet hq).setTask (h.held ht hh), (Still.quiet hq c).setTask⟩
  | delivered d hd hs hw hw' hh =>
    have hc : Still r s' c := .delivered hs fun hc => h.unheld me t ht (by simp [Task.outbound?, hd, hc])
    have ha : Apart r s' := .sent (.inr ⟨d, hd, hs⟩)
    exact ⟨(h.apart ha hc hf).setTask (h.held ht hh), hc.setTask⟩
  | worked n i w p hw hp hs =>
    have hc : Still r s' c := by
      refine .worked hs ?_
      by_cases hi : c = i
      · exact .inr h.next?
      · exact .inl hi
    refine ⟨(h.apart (.worked hp hs) hc hf).setTask ?_, hc.setTask⟩
    rcases Numbered.worked_task hs with ⟨w', rfl⟩ | rfl <;> simp [Task.outbound?, Task.delivery?, finished]

theorem move {m : Move} (h : Sealed r c) (hn : Numbered r) (hm : r.move m = some s) :
    Sealed s c ∧ Still r s c := by
  by_cases ht : ∃ me, m = .turn me
  · obtain ⟨me, rfl⟩ := ht
    exact h.step hn hm
  · have hq := move_quiet hn hm fun me he => ht ⟨me, he⟩
    exact ⟨h.quiet hq, .quiet hq c⟩

theorem later (h : Sealed r c) (hr : Reachable r) (hl : Later r s) : Sealed s c ∧ Still r s c := by
  refine hl.keeps (P := fun s => Sealed s c ∧ Still r s c) ?_ hr ⟨h, .of rfl rfl⟩
  intro s m t hs hc hm
  obtain ⟨h', hc'⟩ := hc.1.move hs.numbered hm
  exact ⟨h', hc.2.trans hc'⟩

theorem of_look (hc : c < r.fresh) (ht : r.take? c (some me) = none) (hs : r.hasSender c = false) :
    Sealed r c := by
  obtain ⟨hsend, hname, hheld⟩ := hasSender_false.mp hs
  obtain ⟨hq, hb⟩ := next?_empty.mp (Option.map_eq_none_iff.mp ht)
  exact ⟨hc, hname, hheld, hsend, hq, hb⟩

end Sealed

end ScrapeRelay.Relay

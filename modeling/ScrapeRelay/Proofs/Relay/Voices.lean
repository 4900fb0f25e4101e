import ScrapeRelay.Proofs.Relay.Courses

/-!
Who tells what. Each event of a turn is one that the task of the turn has to tell: workers tell of targets and
offers, those who wait for workers that a sink is closed, those who work for a discovery that a cycle began and
how it went.
-/

namespace ScrapeRelay.Relay

def Task.scout? : Task → Option Nat
  | .loop n _ _ | .announcement n | .call (.cycle n _ :: _) _ => some n
  | _ => none

inductive Tells (r : Relay) (me : Nat) : Task → Event → Prop
  | works {n c : Nat} {w : Worker} {p : Pool} {e : Event} (hp : r.pools.get? n = some p) (he : e.isWork = true)
      (ho : ∀ sink v text accepted, e = .offered sink v text accepted → sink = p.sink)
      (ht : ∀ i task? x, e = .taken i task? x → i = c ∧ task? = some me) : Tells r me (.worker n c w) e
  | reports {n next : Nat} {aborted : Bool} {stage : Reporter} (k : Key) (status : Collector.Status) :
      Tells r me (.reporter n aborted next stage) (.collectorStatus k status)
  | retires {i : Nat} {ws : List Nat} (hall : ws.all r.hasEnded = true) :
      Tells r me (.retirement i ws) (.sinkClosed i)
  | delivers {t : Task} {d : Delivery} {c : Nat} (x : Target) (hd : t.delivery? = some d)
      (hc : d.channel? = some c) : Tells r me t (.entered c (some me) x)
  | begins {t : Task} {n : Nat} (w : Nat) (ht : t.scout? = some n) : Tells r me t (.began n w)
  | states {t : Task} {n : Nat} {sc : Scout} (status : Discovery.Status) (ht : t.scout? = some n)
      (hn : r.scouts.get? n = some sc) (hr : sc.reports = true) (hs : sc.stopped = false) :
      Tells r me t (.discoveryStatus sc.key status)
  | stops (x : Source) (rest : List Act) (tolerant : Bool) :
      Tells r me (.call (.stopSource x :: rest) tolerant) (.stopped x.member)
  | forgets (k : Key) (rest : List Act) (tolerant : Bool) :
      Tells r me (.call (.forgetDiscovery k :: rest) tolerant) (.discoveryForgotten k)
  | closes (d : Drain) (rest : List Act) (tolerant : Bool) :
      Tells r me (.call (.closeDrain d :: rest) tolerant) (.closed d.member)
  | shuts (i : Nat) (rest : List Act) (tolerant : Bool) :
      Tells r me (.call (.closeSink i :: rest) tolerant) (.sinkClosed i)
  | drops (k : Key) (rest : List Act) (tolerant : Bool) :
      Tells r me (.call (.forgetCollector k :: rest) tolerant) (.collectorForgotten k)

def Adds (r s : Relay) (P : Event → Prop) : Prop :=
  ∃ events, s.journal = events ++ r.journal ∧ ∀ e ∈ events, P e

variable {r s u : Relay} {me n c : Nat} {t t' : Task} {k : Key} {acts : List Act} {tolerant : Bool}
  {P Q : Event → Prop}

namespace Adds

theorem nothing (h : s.journal = r.journal) : Adds r s P := ⟨[], h, by simp⟩

theorem one {e : Event} (h : s.journal = e :: r.journal) (he : P e) : Adds r s P := ⟨[e], h, by simpa using he⟩

theorem trans (h : Adds r s P) (hs : Adds s u P) : Adds r u P := by
  obtain ⟨events, hj, he⟩ := h
  obtain ⟨events', hj', he'⟩ := hs
  refine ⟨events' ++ events, by rw [hj', hj, List.append_assoc], fun e hm => ?_⟩
  exact (List.mem_append.mp hm).elim (he' e) (he e)

theorem mono (h : Adds r s P) (hp : ∀ e, P e → Q e) : Adds r s Q := by
  obtain ⟨events, hj, he⟩ := h
  exact ⟨events, hj, fun e hm => hp e (he e hm)⟩

theorem and (h : Adds r s P) (hq : Adds r s Q) : Adds r s fun e => P e ∧ Q e := by
  obtain ⟨events, hj, he⟩ := h
  obtain ⟨events', hj', he'⟩ := hq
  obtain rfl := List.append_cancel_right (hj.symm.trans hj')
  exact ⟨events, hj, fun e hm => ⟨he e hm, he' e hm⟩⟩

theorem told {e : Event} (h : Adds r s P) (he : e ∈ s.journal) : P e ∨ e ∈ r.journal := by
  obtain ⟨events, hj, hp⟩ := h
  rw [hj] at he
  exact (List.mem_append.mp he).imp_left (hp e)

end Adds

/-! Deliveries and cycles -/

theorem deliver_tells {d : Delivery} {p : Delivery.Progress} (ht : t.delivery? = some d)
    (h : r.deliver me d = some (s, p)) : Adds r s (Tells r me t) := by
  cases deliver_forwarded h with
  | @enters k x rest limit c ch ho => exact .one rfl (.delivers x ht rfl)
  | _ => exact .nothing rfl

theorem writeStatus_tells {sc : Scout} (ht : t.scout? = some n) (hn : r.scouts.get? n = some sc)
    (status : Discovery.Status) : Adds r (r.writeStatus sc status) (Tells r me t) := by
  rw [writeStatus]
  split
  · rename_i h
    rw [Bool.and_eq_true, Bool.not_eq_true'] at h
    refine .one (e := .discoveryStatus sc.key status) ?_ (.states status ht hn h.1 h.2)
    unfold reportDiscovery
    dsimp only
    split <;> rfl
  · exact .nothing rfl

theorem passOn_tells {sc : Scout} (ht : t.scout? = some n) : Adds r (r.passOn n sc) (Tells s me t) := by
  rw [passOn]
  split
  · exact .nothing rfl
  · exact .one rfl (.begins _ ht)

theorem cycle_tells {sc : Scout} {x : Cycle} {p : Cycle.Progress} (ht : t.scout? = some n)
    (hd : t.delivery? = x.delivery?) (hn : r.scouts.get? n = some sc) (h : r.cycle me n sc x = some (s, p)) :
    Adds r s (Tells r me t) := by
  cases cycle_advanced h with
  | stays => exact .nothing rfl
  | asks =>
    rw [ask]
    split
    · exact .one rfl (.begins _ ht)
    · exact .nothing rfl
  | delivers hq => exact deliver_tells (t := t) hd hq
  | reports found tally => exact (writeStatus_tells ht hn _).trans (passOn_tells ht)

/-! Workers -/

theorem take?_tells {x : Target} {w : Worker} {p : Pool} (hp : r.pools.get? n = some p)
    (h : r.take? c (some me) = some (x, s)) : Adds r s (Tells r me (.worker n c w)) := by
  have hj := take?_journal h
  rw [← List.cons_append] at hj
  refine ⟨_, hj, fun e he => ?_⟩
  rcases List.mem_cons.mp he with rfl | he
  · refine .works hp rfl (by simp) ?_
    rintro i task? y ⟨⟩
    exact ⟨rfl, rfl⟩
  · obtain ⟨b, -, rfl⟩ := List.mem_map.mp (List.mem_reverse.mp he)
    exact .works hp rfl (by simp) (by simp)

theorem worked_tells {p : Pool} {w : Worker} (hp : r.pools.get? n = some p) (h : Worked r me n c p w s t') :
    Adds r s (Tells r me (.worker n c w)) := by
  cases h with
  | takes hw inLine hs =>
    have ht := take?_tells (w := w) hp hs
    cases inLine
    · exact ht
    · exact ht.trans (.nothing rfl)
  | waits => split <;> exact .nothing rfl
  | leaves hw inLine => cases inLine <;> exact .nothing rfl
  | scrapes => exact .nothing rfl
  | misses => exact .one rfl (.works hp rfl (by simp) (by simp))
  | ends => exact .one rfl (.works hp rfl (by simp) (by simp))
  | @ships x m rest =>
    rw [ship]
    split
    · exact .nothing rfl
    · exact .nothing rfl
    · refine .one rfl (.works hp rfl ?_ (by simp))
      rintro sink v text accepted ⟨⟩
      rfl

/-! All turns -/

theorem Called.tells (h : Called r me tolerant acts s t') : Adds r s (Tells r me (.call acts tolerant)) := by
  cases h with
  | sends rest hd => exact deliver_tells rfl hd
  | cycles rest hn hc => exact cycle_tells rfl rfl hn hc
  | stops x rest =>
    cases x with
    | probe n collectors => exact .one rfl (.stops (.probe n collectors) rest tolerant)
    | scout n =>
      simp only [stopSource]
      split
      · split
        · exact .nothing rfl
        · exact .one rfl (.stops (.scout n) rest tolerant)
      · exact .nothing rfl
  | joins x rest =>
    obtain ⟨scouts, hj⟩ := joinSource_eq r x
    rw [hj]
    exact .nothing rfl
  | forgets k rest =>
    split
    · exact .one rfl (.forgets k rest tolerant)
    · exact .nothing rfl
  | closes d rest =>
    cases d with
    | probe n keeps =>
      rw [closeDrain_probe]
      exact .one rfl (.closes (.probe n keeps) rest tolerant)
    | pool n =>
      cases hp : r.pools.get? n with
      | none =>
        simp only [closeDrain, hp]
        exact .nothing rfl
      | some p =>
        rw [closeDrain_pool hp]
        exact .one rfl (.closes (.pool n) rest tolerant)
  | shuts i rest => exact .one rfl (.shuts i rest tolerant)
  | drops k rest =>
    split
    · exact .one rfl (.drops k rest tolerant)
    · exact .nothing rfl
  | _ => exact .nothing rfl

theorem Acted.tells (h : Acted r me t s t') : Adds r s (Tells r me t) := by
  cases h with
  | works hp hw => exact worked_tells hp hw
  | reports n aborted next k status =>
    refine .one (e := .collectorStatus k status) ?_ (.reports k status)
    unfold reportCollector
    dsimp only
    split <;> rfl
  | retires hall => exact .one rfl (.retires hall)
  | cycles due hn hc => exact cycle_tells rfl rfl hn hc
  | announces hn => exact writeStatus_tells rfl hn _
  | calls h => exact h.tells
  | _ => exact .nothing rfl

theorem step_tells (hn : Numbered r) (hs : r.step me = some s) :
    ∃ t, r.tasks.get? me = some t ∧ Adds r s (Tells r me t) := by
  obtain ⟨t, t', s', ht, ha, -, rfl⟩ := step_acted hn hs
  exact ⟨t, ht, ha.tells⟩

def Move.drainKey? : Move → Option Key
  | .addPool k .. | .addProbeDrain k .. => some k
  | _ => none

inductive Announced (r : Relay) (m : Move) : Event → Prop
  | started (new : Member) : Announced r m (.started new)
  | source (x : Source) : Announced r m (.stopped x.member)
  | drain {k : Key} {d : Drain} (hk : m.drainKey? = some k) (hd : r.registry.drains.get? k = some d) :
      Announced r m (.stopped d.member)

theorem move_tells {m : Move} (hr : Reachable r) (hm : r.move m = some s) (ht : ∀ me, m ≠ .turn me) :
    Adds r s (Announced r m) := by
  cases m with
  | turn me => exact absurd rfl (ht me)
  | call | surround | elapse =>
    obtain rfl := Option.some.inj hm
    exact .nothing rfl
  | addDiscovery k | addProbeSource k =>
    refine ⟨_, entered?_source_journal hr.numbered hr.stage hm rfl, fun e he => ?_⟩
    rcases List.mem_cons.mp he with rfl | he
    · exact .started _
    · obtain ⟨x, -, rfl⟩ := Option.map_eq_some_iff.mp (Option.mem_toList.mp he)
      exact .source x
  | addPool k | addProbeDrain k =>
    refine ⟨_, entered?_drain_journal hr.numbered hr.stage hm rfl, fun e he => ?_⟩
    rcases List.mem_cons.mp he with rfl | he
    · exact .started _
    · obtain ⟨d, hd, rfl⟩ := Option.map_eq_some_iff.mp (Option.mem_toList.mp he)
      exact .drain rfl hd

theorem Reachable.lives_on {m : Member} {o : Owner} (hr : Reachable r) (hs : Reachable s) (ho : Owns r o m)
    (h : Adds r s fun e => e ≠ .stopped m ∧ e ≠ .closed m) : ∃ o, Owns s o m := by
  obtain ⟨events, hj, he⟩ := h
  have hl := (hr.stage m).life ho
  have hstopped : events.count (.stopped m) = 0 := List.count_eq_zero_of_not_mem fun hm => (he _ hm).1 rfl
  have hclosed : events.count (.closed m) = 0 := List.count_eq_zero_of_not_mem fun hm => (he _ hm).2 rfl
  have hlife : s.life m = ⟨events.count (.started m) + 1, 0, 0⟩ := by
    rw [life, hj, lifeIn_append]
    change lifeIn r.journal m = _ at hl
    rw [hl, hstopped, hclosed, Nat.zero_add]
  cases hs.stage m with
  | owned o ho => exact ⟨o, (ho o).mpr rfl⟩
  | unborn _ h | stopped _ h | closed _ h => simp [hlife] at h

end ScrapeRelay.Relay

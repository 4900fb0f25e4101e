import ScrapeRelay.Proofs.Relay.Moves

/-!
What one turn of a task can do to the channels, the registry, the pools and the other tasks. A turn of a
worker is a step of its own work; any other turn either leaves all of them alone, or offers one target
to a channel, or does one of four things to the registry or to a resource that was taken from it.
-/

namespace ScrapeRelay.Relay

/-- Events that neither move a target nor begin or end the life of a member. -/
def Event.isRemark : Event → Bool
  | .sinkClosed _ | .began .. | .discoveryStatus .. | .collectorStatus .. => true
  | .discoveryForgotten _ | .collectorForgotten _ => true
  | _ => false

def Scout.terms (s : Scout) : Key × Discovery.Spec × Bool × Bool := (s.key, s.spec, s.connected, s.reports)

/-- A relay that differs in its scouts, its board and remarks only; the scouts are on the same terms and as
stopped as they were. -/
inductive Aside (r : Relay) : Relay → Prop
  | mk (scouts : Dict Nat Scout) (board : Status.Board) (remarks : List Event)
      (hs : ∀ n, (scouts.get? n).map (fun s => (s.terms, s.stopped)) =
        (r.scouts.get? n).map fun s => (s.terms, s.stopped))
      (hr : ∀ e ∈ remarks, e.isRemark = true) :
      Aside r { r with scouts, board, journal := remarks ++ r.journal }

namespace Aside

variable {r s t : Relay}

theorem refl (r : Relay) : Aside r r := .mk r.scouts r.board [] (fun _ => rfl) (by simp)

theorem trans (h : Aside r s) (ht : Aside s t) : Aside r t := by
  obtain ⟨scouts, board, remarks, hs, hr⟩ := h
  obtain ⟨scouts', board', remarks', hs', hr'⟩ := ht
  rw [← List.append_assoc]
  refine .mk scouts' board' (remarks' ++ remarks) (fun n => (hs' n).trans (hs n)) ?_
  intro e he
  exact (List.mem_append.mp he).elim (hr' e) (hr e)

theorem record (r : Relay) {e : Event} (he : e.isRemark = true) : Aside r (r.record e) :=
  .mk r.scouts r.board [e] (fun _ => rfl) (by simp [he])

theorem board (r : Relay) (b : Status.Board) : Aside r { r with board := b } :=
  .mk r.scouts b [] (fun _ => rfl) (by simp)

theorem setScout {n : Nat} {s s' : Scout} (hs : r.scouts.get? n = some s)
    (h : (s'.terms, s'.stopped) = (s.terms, s.stopped)) : Aside r (r.setScout n s') := by
  refine .mk (r.scouts.insert n s') r.board [] ?_ (by simp)
  intro m
  rw [Dict.get?_insert]
  split
  · rename_i hm
    rw [hm, hs, Option.map_some, Option.map_some, h]
  · rfl

theorem reportDiscovery (r : Relay) (k : Key) (s : Discovery.Status) : Aside r (r.reportDiscovery k s) := by
  unfold Relay.reportDiscovery
  dsimp only
  split
  · exact record r rfl
  · exact (record r rfl).trans (board _ _)

theorem reportCollector (r : Relay) (k : Key) (s : Collector.Status) : Aside r (r.reportCollector k s) := by
  unfold Relay.reportCollector
  dsimp only
  split
  · exact record r rfl
  · exact (record r rfl).trans (board _ _)

theorem writeStatus (r : Relay) (s : Scout) (status : Discovery.Status) : Aside r (r.writeStatus s status) := by
  rw [Relay.writeStatus]
  split
  · exact reportDiscovery r s.key status
  · exact refl r

theorem writeStatus_scouts (r : Relay) (s : Scout) (status : Discovery.Status) :
    (r.writeStatus s status).scouts = r.scouts := by
  unfold Relay.writeStatus Relay.reportDiscovery
  split
  · dsimp only
    split <;> rfl
  · rfl

theorem ask {n : Nat} {s : Scout} (hs : r.scouts.get? n = some s) (me : Nat) : Aside r (r.ask me n s).1 := by
  rw [Relay.ask]
  split
  · refine (setScout hs ?_).trans (record _ ?_) <;> rfl
  · exact setScout hs rfl

theorem passOn {n : Nat} {s : Scout} (hs : r.scouts.get? n = some s) : Aside r (r.passOn n s) := by
  rw [Relay.passOn]
  split
  · exact setScout hs rfl
  · refine (setScout hs ?_).trans (record _ ?_) <;> rfl

theorem joinSource (r : Relay) (s : Source) : Aside r (r.joinSource s).1 := by
  cases s with
  | probe n collectors => exact refl r
  | scout n =>
    simp only [Relay.joinSource]
    split
    · rename_i s hs
      exact setScout hs rfl
    · exact refl r

end Aside

theorem joinSource_eq (r : Relay) (x : Source) : ∃ scouts, (r.joinSource x).1 = { r with scouts } := by
  cases x with
  | probe => exact ⟨r.scouts, rfl⟩
  | scout n =>
    simp only [joinSource]
    split
    · exact ⟨_, rfl⟩
    · exact ⟨r.scouts, rfl⟩

/-! Deliveries and cycles -/

inductive Delivered (r : Relay) (me : Nat) (d : Delivery) : Relay → Prop
  | enters {c : Nat} {t : Target} {ch : Channel} (hc : d.channel? = some c)
      (ho : (r.channel c).offer? t = some ch) :
      Delivered r me d ((r.setChannel c ch).record (.entered c (some me) t))
  | blocks {c : Nat} {t : Target} (hc : d.channel? = some c) (ho : (r.channel c).offer? t = none) :
      Delivered r me d (r.setChannel c ((r.channel c).block me t))
  | withdraws {c : Nat} (hc : d.channel? = some c) : Delivered r me d (r.withdraw me c)

def Sent (r : Relay) (me : Nat) (d? : Option Delivery) (s : Relay) : Prop :=
  Aside r s ∨ ∃ d, d? = some d ∧ Delivered r me d s

/-- Where a sending end comes from: it was held before, or the registry gave it away. -/
def Held (r : Relay) (d? : Option Delivery) (d?' : Option Delivery) : Prop :=
  ∀ c, d?'.bind (·.channel?) = some c →
    d?.bind (·.channel?) = some c ∨ ∃ k, r.registry.channels.get? k = some c

variable {r s : Relay} {me : Nat}

theorem Held.none (r : Relay) (d? : Option Delivery) : Held r d? none := by
  intro c h
  simp at h

theorem push_sent {d : Delivery} {c : Nat} (hd : d.channel? = some c) :
    Sent r me (some d) (r.push me d c).1 ∧
      ∀ d', (r.push me d c).2 = .going d' → d'.channel? = some c := by
  rw [push]
  cases hr : d.rest with
  | nil => exact ⟨.inl (.refl r), by simp⟩
  | cons t rest =>
    dsimp only
    split
    · cases ho : (r.channel c).offer? t with
      | none =>
        simp only [offer?, ho, Option.map_none]
        refine ⟨.inr ⟨d, rfl, .blocks hd ho⟩, ?_⟩
        intro d' h
        injection h with h
        rw [← h]
        rfl
      | some ch =>
        simp only [offer?, ho, Option.map_some]
        refine ⟨.inr ⟨d, rfl, .enters hd ho⟩, ?_⟩
        intro d' h
        injection h with h
        rw [← h]
        exact hd
    · exact ⟨.inl (.refl r), by simp⟩

theorem resume_sent {d : Delivery} {c : Nat} {p : Delivery.Progress} (hd : d.channel? = some c)
    (h : r.resume me d c = some (s, p)) :
    Sent r me (some d) s ∧ ∀ d', p = .going d' → d'.channel? = some c := by
  rw [resume] at h
  split at h
  · obtain ⟨rfl, rfl⟩ := Prod.mk.inj (Option.some.inj h)
    refine ⟨.inl (.refl r), ?_⟩
    intro d' h
    injection h with h
    rw [← h]
    rfl
  · split at h
    · obtain ⟨rfl, rfl⟩ := Prod.mk.inj (Option.some.inj h)
      exact ⟨.inr ⟨d, rfl, .withdraws hd⟩, by simp⟩
    · split at h
      · split at h
        · obtain ⟨rfl, rfl⟩ := Prod.mk.inj (Option.some.inj h)
          exact ⟨.inr ⟨d, rfl, .withdraws hd⟩, by simp⟩
        · simp at h
      · simp at h

theorem deliver_sent {d : Delivery} {p : Delivery.Progress} (h : r.deliver me d = some (s, p)) :
    Sent r me (some d) s ∧ ∀ d', p = .going d' → Held r (some d) (some d') := by
  rw [deliver] at h
  split at h
  · split at h
    · rename_i c hc
      obtain ⟨rfl, rfl⟩ := Prod.mk.inj (Option.some.inj h)
      refine ⟨.inl (.refl r), ?_⟩
      intro d' h e he
      injection h with h
      subst h
      obtain rfl : c = e := Option.some.inj he
      exact .inr ⟨d.key, hc⟩
    · obtain ⟨rfl, rfl⟩ := Prod.mk.inj (Option.some.inj h)
      exact ⟨.inl (.refl r), by simp⟩
  · rename_i c hs
    have hd : d.channel? = some c := by rw [Delivery.channel?, hs]
    obtain ⟨hp, hg⟩ : Sent r me (some d) (r.push me d c).1 ∧ ∀ d', (r.push me d c).2 = .going d' →
      d'.channel? = some c := push_sent hd
    obtain ⟨rfl, rfl⟩ := Prod.mk.inj (Option.some.inj h)
    exact ⟨hp, fun d' h e he => .inl (hd.trans ((hg d' h).symm.trans he))⟩
  · rename_i c hs
    have hd : d.channel? = some c := by rw [Delivery.channel?, hs]
    obtain ⟨hp, hg⟩ := resume_sent hd h
    exact ⟨hp, fun d' h e he => .inl (hd.trans ((hg d' h).symm.trans he))⟩

theorem choose_held (sc : Scout) (batch : List Target) (k : Key) (rest : List Key) (tally : Tally)
    (d? : Option Delivery) : Held r d? (r.choose sc batch k rest tally).delivery? := by
  intro c h
  rw [choose] at h
  split at h
  · split at h <;> simp [Cycle.delivery?, Delivery.start, Delivery.channel?] at h
  · simp [Cycle.delivery?] at h

theorem cycle_sent {n : Nat} {sc : Scout} {c : Cycle} {p : Cycle.Progress} (hs : r.scouts.get? n = some sc)
    (h : r.cycle me n sc c = some (s, p)) :
    Sent r me c.delivery? s ∧ ∀ c', p = .going c' → Held r c.delivery? c'.delivery? := by
  have quiet {c c' : Cycle} (hn : c'.delivery? = none) :
      ∀ c'', Cycle.Progress.going c' = .going c'' → Held r c.delivery? c''.delivery? := by
    intro c'' h
    injection h with h
    rw [← h, hn]
    exact .none r _
  cases c with
  | asking =>
    obtain ⟨rfl, rfl⟩ := Prod.mk.inj (Option.some.inj h)
    refine ⟨.inl (.ask hs me), quiet ?_⟩
    rw [ask]
    split <;> rfl
  | queued =>
    simp only [cycle] at h
    split at h
    · obtain ⟨rfl, rfl⟩ := Prod.mk.inj (Option.some.inj h)
      exact ⟨.inl (.refl r), quiet rfl⟩
    · simp at h
  | scanning =>
    obtain ⟨rfl, rfl⟩ := Prod.mk.inj (Option.some.inj h)
    refine ⟨.inl (.refl r), quiet ?_⟩
    split <;> rfl
  | choosing batch rest tally =>
    cases rest with
    | nil =>
      obtain ⟨rfl, rfl⟩ := Prod.mk.inj (Option.some.inj h)
      exact ⟨.inl (.refl r), quiet rfl⟩
    | cons k rest =>
      obtain ⟨rfl, rfl⟩ := Prod.mk.inj (Option.some.inj h)
      refine ⟨.inl (.refl r), ?_⟩
      intro c' h
      injection h with h
      rw [← h]
      exact choose_held sc batch k rest tally _
  | delivering batch d rest tally =>
    obtain ⟨⟨s', p'⟩, hd, h⟩ := Option.map_eq_some_iff.mp h
    obtain ⟨hsent, hheld⟩ := deliver_sent hd
    cases p' with
    | going d' =>
      obtain ⟨rfl, rfl⟩ := Prod.mk.inj h
      refine ⟨hsent, ?_⟩
      intro c' h
      injection h with h
      rw [← h]
      exact hheld d' rfl
    | «over» result =>
      obtain ⟨rfl, rfl⟩ := Prod.mk.inj h
      exact ⟨hsent, quiet rfl⟩
  | measuring batch k rest tally =>
    obtain ⟨rfl, rfl⟩ := Prod.mk.inj (Option.some.inj h)
    exact ⟨.inl (.refl r), quiet rfl⟩
  | reporting found tally =>
    obtain ⟨rfl, rfl⟩ := Prod.mk.inj (Option.some.inj h)
    refine ⟨.inl ((Aside.writeStatus r sc _).trans (.passOn ?_)), by simp⟩
    rw [Aside.writeStatus_scouts, hs]

inductive Advanced (r : Relay) (me n : Nat) (sc : Scout) : Cycle → Relay → Prop
  | stays (x : Cycle) : Advanced r me n sc x r
  | asks : Advanced r me n sc .asking (r.ask me n sc).1
  | delivers {batch : List Target} {d : Delivery} {rest : List Key} {tally : Tally} {s : Relay}
      {q : Delivery.Progress} (hd : r.deliver me d = some (s, q)) :
      Advanced r me n sc (.delivering batch d rest tally) s
  | reports (found : Nat) (tally : Tally) : Advanced r me n sc (.reporting found tally)
      ((r.writeStatus sc (r.cycleStatus sc found tally)).passOn n sc)

theorem cycle_advanced {n : Nat} {sc : Scout} {x : Cycle} {p : Cycle.Progress}
    (h : r.cycle me n sc x = some (s, p)) : Advanced r me n sc x s := by
  cases x with
  | asking =>
    obtain ⟨rfl, -⟩ := Prod.mk.inj (Option.some.inj h)
    exact .asks
  | queued =>
    simp only [cycle] at h
    split at h
    · obtain ⟨rfl, -⟩ := Prod.mk.inj (Option.some.inj h)
      exact .stays .queued
    · simp at h
  | choosing batch rest tally =>
    cases rest <;> obtain ⟨rfl, -⟩ := Prod.mk.inj (Option.some.inj h) <;> exact .stays _
  | scanning | measuring =>
    obtain ⟨rfl, -⟩ := Prod.mk.inj (Option.some.inj h)
    exact .stays _
  | delivering batch d rest tally =>
    obtain ⟨⟨s', q⟩, hd, he⟩ := Option.map_eq_some_iff.mp h
    cases q <;> obtain ⟨rfl, -⟩ := Prod.mk.inj he <;> exact .delivers hd
  | reporting found tally =>
    obtain ⟨rfl, -⟩ := Prod.mk.inj (Option.some.inj h)
    exact .reports found tally

/-! Workers -/

theorem take?_eq {c : Nat} {x : Target} {task? : Option Nat} (h : r.take? c task? = some (x, s)) :
    (r.channel c).next? = some x ∧
    s = { r with
      channels := r.channels.insert c (r.channel c).take
      journal := .taken c task? x ::
        (((r.channel c).admitted.map fun b => Event.entered c (some b.1) b.2).reverse ++ r.journal) } := by
  obtain ⟨y, hy, he⟩ := Option.map_eq_some_iff.mp h
  obtain ⟨rfl, rfl⟩ := Prod.mk.inj he
  refine ⟨hy, ?_⟩
  have hf (l : List (Nat × Target)) (r : Relay) :
      l.foldl (fun (r : Relay) b => r.record (.entered c (some b.1) b.2)) r =
        { r with journal := (l.map fun b => Event.entered c (some b.1) b.2).reverse ++ r.journal } := by
    induction l generalizing r with
    | nil => rfl
    | cons b rest ih =>
      rw [List.foldl_cons, ih]
      simp [Relay.record]
  rw [hf]
  rfl

def Worker.inHand? : Worker → Option Target
  | .holding t | .shipping t _ => some t
  | _ => none

inductive Worked (r : Relay) (me n c : Nat) (p : Pool) : Worker → Relay → Task → Prop
  | takes {w : Worker} {t : Target} {s : Relay} (hw : w.inHand? = none) (inLine : Bool)
      (h : r.take? c (some me) = some (t, s)) (hl : w = .waiting → inLine = true) :
      Worked r me n c p w (if inLine then s.leaveLine me c else s) (.worker n c (.holding t))
  | waits {w : Worker} (hw : w.inHand? = none) (h : r.take? c (some me) = none) :
      Worked r me n c p w (if (r.channel c).isWaiting me then r else r.setChannel c ((r.channel c).await me))
        (.worker n c .waiting)
  | leaves {w : Worker} (hw : w.inHand? = none) (inLine : Bool)
      (h : p.stopped = true ∨ r.take? c (some me) = none ∧ r.hasSender c = false)
      (hl : w = .waiting → inLine = true) :
      Worked r me n c p w (if inLine then r.leaveLine me c else r) finished
  | scrapes {t : Target} {ms : List Metric} (h : p.pipeline.scrape r.network r.now t = .ok ms) :
      Worked r me n c p (.holding t) r (.worker n c (.shipping t ms))
  | misses {t : Target} {f : Failure} (h : p.pipeline.scrape r.network r.now t = .error f) :
      Worked r me n c p (.holding t) ((r.setStatus n p p.status.countError).record (.handled me t))
        (.worker n c .idle)
  | ships {t : Target} {m : Metric} {rest : List Metric} :
      Worked r me n c p (.shipping t (m :: rest)) (r.ship me n p m) (.worker n c (.shipping t rest))
  | ends {t : Target} : Worked r me n c p (.shipping t []) (r.record (.handled me t)) (.worker n c .idle)

theorem look_worked {n c : Nat} {w : Worker} (p : Pool) (hw : w.inHand? = none) (inLine : Bool)
    (hl : w = .waiting → inLine = true) :
    Worked r me n c p w (r.look me n c inLine).1 (r.look me n c inLine).2 := by
  rw [look]
  cases h : r.take? c (some me) with
  | some taken => exact .takes hw inLine h hl
  | none =>
    dsimp only
    split
    · exact .waits hw h
    · rename_i hs
      exact .leaves hw inLine (.inr ⟨h, by simpa using hs⟩) hl

theorem work_worked {n c : Nat} {p : Pool} {w : Worker} {t' : Task} (h : r.work me n c p w = some (s, t')) :
    Worked r me n c p w s t' := by
  cases w with
  | idle =>
    simp only [work] at h
    split at h
    · rename_i hs
      obtain ⟨rfl, rfl⟩ := Prod.mk.inj (Option.some.inj h)
      exact .leaves rfl false (.inl hs) (by simp)
    · obtain ⟨rfl, rfl⟩ := Prod.mk.inj (Option.some.inj h)
      exact look_worked p rfl false (by simp)
  | waiting =>
    simp only [work] at h
    split at h
    · rename_i hs
      obtain ⟨rfl, rfl⟩ := Prod.mk.inj (Option.some.inj h)
      exact .leaves rfl true (.inl hs) fun _ => rfl
    · split at h
      · simp at h
      · obtain ⟨rfl, rfl⟩ := Prod.mk.inj (Option.some.inj h)
        exact look_worked p rfl true fun _ => rfl
  | holding t =>
    simp only [work] at h
    split at h
    · rename_i ms hm
      obtain ⟨rfl, rfl⟩ := Prod.mk.inj (Option.some.inj h)
      exact .scrapes hm
    · rename_i f hf
      obtain ⟨rfl, rfl⟩ := Prod.mk.inj (Option.some.inj h)
      exact .misses hf
  | shipping t ms =>
    cases ms with
    | nil =>
      obtain ⟨rfl, rfl⟩ := Prod.mk.inj (Option.some.inj h)
      exact .ends
    | cons m rest =>
      obtain ⟨rfl, rfl⟩ := Prod.mk.inj (Option.some.inj h)
      exact .ships

def outlet (r : Relay) (sink : Nat) : Outlet := r.outlets.getD sink ⟨fun _ => true, 0⟩

def takesNext (r : Relay) (sink : Nat) : Bool := (r.outlet sink).accepts (r.outlet sink).offered

def countOffer (r : Relay) (sink : Nat) : Relay :=
  { r with outlets := r.outlets.insert sink { r.outlet sink with offered := (r.outlet sink).offered + 1 } }

theorem ship_payload {n : Nat} {p : Pool} {m : Metric} {text : String} (h : p.pipeline.fate m = .payload text) :
    r.ship me n p m =
      ((r.countOffer p.sink).record (.offered p.sink me text (r.takesNext p.sink))).setStatus n p
        (if r.takesNext p.sink then p.status.countSent else p.status.countError) := by
  rw [ship]
  rw [h]
  rfl

/-! All turns -/

/-- What a call may have to do later: nothing that it is in the middle of. -/
def Act.isPlain : Act → Bool
  | .deliver _ | .cycle .. | .stopSource _ | .closeDrain _ => false
  | _ => true

def Source.member : Source → Member
  | .scout n => .scout n
  | .probe n _ => .probe n

def Drain.member : Drain → Member
  | .pool n => .pool n
  | .probe n _ => .probe n

def Act.member? : Act → Option Member
  | .stopSource x => some x.member
  | .closeDrain d => some d.member
  | _ => none

namespace Task

def isWorker : Task → Bool
  | worker .. => true
  | _ => false

def acts : Task → List Act
  | call acts _ => acts
  | _ => []

/-- The members that a call has taken from the registry and is about to stop or close. -/
def pending (t : Task) : List Member := t.acts.filterMap Act.member?

def Ordered (t : Task) : Prop := ∀ a ∈ t.acts.tail, a.isPlain = true

end Task

structure Routine (r : Relay) (t t' : Task) : Prop where
  plain : t.isWorker = false
  plain' : t'.isWorker = false
  pending : t.pending = []
  pending' : t'.pending = []
  ordered : t'.Ordered
  held : Held r t.delivery? t'.delivery?

theorem member?_plain {a : Act} (h : a.isPlain = true) : a.member? = none := by
  cases a <;> simp_all [Act.isPlain, Act.member?]

theorem pending_plain {acts : List Act} (h : ∀ a ∈ acts, a.isPlain = true) (tolerant : Bool) :
    (Task.call acts tolerant).pending = [] :=
  List.filterMap_eq_nil_iff.mpr fun a ha => member?_plain (h a ha)

theorem pending_ordered {a : Act} {rest : List Act} {tolerant : Bool}
    (h : (Task.call (a :: rest) tolerant).Ordered) :
    (Task.call (a :: rest) tolerant).pending = a.member?.toList := by
  have hr : rest.filterMap Act.member? = [] := pending_plain h tolerant
  unfold Task.pending Task.acts
  rw [List.filterMap_cons, hr]
  cases a.member? <;> rfl

theorem delivery?_plain {acts : List Act} (h : ∀ a ∈ acts, a.isPlain = true) (tolerant : Bool) :
    (Task.call acts tolerant).delivery? = none := by
  cases acts with
  | nil => rfl
  | cons a rest =>
    have ha := h a List.mem_cons_self
    cases a <;> simp_all [Act.isPlain, Task.delivery?]

namespace Routine

variable {a : Act} {rest more : List Act} {tolerant : Bool}

theorem ends (r : Relay) (o : Outcome) (ha : a.member? = none) (ht : (Task.call (a :: rest) tolerant).Ordered) :
    Routine r (.call (a :: rest) tolerant) (.ended o) where
  plain := rfl
  plain' := rfl
  pending := by rw [pending_ordered ht, ha]; rfl
  pending' := rfl
  ordered := by simp [Task.Ordered, Task.acts]
  held := .none r _

theorem goesOn (r : Relay) (ha : a.member? = none) (ht : (Task.call (a :: rest) tolerant).Ordered)
    (hm : ∀ b ∈ more, b.isPlain = true) :
    Routine r (.call (a :: rest) tolerant) (.call (more ++ rest) tolerant) := by
  have plain : ∀ b ∈ more ++ rest, b.isPlain = true := fun b hb => (List.mem_append.mp hb).elim (hm b) (ht b)
  refine ⟨rfl, rfl, ?_, pending_plain plain tolerant, ?_, ?_⟩
  · rw [pending_ordered ht, ha]
    rfl
  · exact fun b hb => plain b (List.mem_of_mem_tail hb)
  · rw [delivery?_plain plain]
    exact .none r _

theorem stays {a' : Act} (ha : a.member? = none) (ha' : a'.member? = none)
    (ht : (Task.call (a :: rest) tolerant).Ordered)
    (hh : Held r (Task.call (a :: rest) tolerant).delivery? (Task.call (a' :: rest) tolerant).delivery?) :
    Routine r (.call (a :: rest) tolerant) (.call ([a'] ++ rest) tolerant) :=
  have ht' : (Task.call (a' :: rest) tolerant).Ordered := ht
  ⟨rfl, rfl, by rw [pending_ordered ht, ha]; rfl, by rw [List.singleton_append, pending_ordered ht', ha']; rfl,
    ht', hh⟩

end Routine

inductive Turned (r : Relay) (me : Nat) : Task → Relay → Task → Prop
  | routine {t t' : Task} {s : Relay} (hs : Sent r me t.delivery? s) (ht : Routine r t t') : Turned r me t s t'
  | works {n c : Nat} {w : Worker} {p : Pool} {s : Relay} {t' : Task} (hp : r.pools.get? n = some p)
      (h : Worked r me n c p w s t') : Turned r me (.worker n c w) s t'
  | strays {n c : Nat} {w : Worker} (hp : r.pools.get? n = none) : Turned r me (.worker n c w) r finished
  | measures {n next : Nat} {aborted : Bool} {stage stage' : Reporter} {p : Pool} {registered inFlight : UInt64}
      (hp : r.pools.get? n = some p) :
      Turned r me (.reporter n aborted next stage)
        (r.setStatus n p { p.status with registeredDiscoveries := registered, inFlight })
        (.reporter n aborted next stage')
  | removesSource {k : Key} {x : Source} {rest : List Act} {tolerant : Bool}
      (hx : r.registry.sources.get? k = some x) :
      Turned r me (.call (.removeSource k :: rest) tolerant)
        { r with registry := { r.registry with sources := r.registry.sources.erase k } }
        (.call (.stopSource x :: .joinSource x :: .forgetDiscovery k :: rest) tolerant)
  | removesDrain {k : Key} {d : Drain} {rest : List Act} {tolerant : Bool}
      (hd : r.registry.drains.get? k = some d) :
      Turned r me (.call (.removeDrain k :: rest) tolerant)
        { r with registry := { r.registry with
            drains := r.registry.drains.erase k
            channels := r.registry.channels.erase k } }
        (.call (.closeDrain d :: .forgetCollector k :: rest) tolerant)
  | stopsSource {x : Source} {rest : List Act} {tolerant : Bool} :
      Turned r me (.call (.stopSource x :: rest) tolerant) (r.stopSource x) (.call rest tolerant)
  | closesDrain {d : Drain} {rest : List Act} {tolerant : Bool} :
      Turned r me (.call (.closeDrain d :: rest) tolerant) (r.closeDrain d).1
        (.call ((r.closeDrain d).2 ++ rest) tolerant)

def Act.Progress.task (rest : List Act) (tolerant : Bool) : Act.Progress → Task
  | going more => .call (more ++ rest) tolerant
  | answer status => .ended (.ok (some status))
  | failed f => if tolerant then .call rest tolerant else .ended (.error f)

theorem callStep_cons {a : Act} {rest : List Act} {tolerant : Bool} {t' : Task}
    (h : r.callStep me (a :: rest) tolerant = some (s, t')) :
    ∃ p, r.act me a = some (s, p) ∧ t' = p.task rest tolerant := by
  obtain ⟨⟨s', p⟩, ha, h⟩ := Option.map_eq_some_iff.mp h
  refine ⟨p, ?_⟩
  cases p with
  | going more =>
    obtain ⟨rfl, rfl⟩ := Prod.mk.inj h
    exact ⟨ha, rfl⟩
  | answer status =>
    obtain ⟨rfl, rfl⟩ := Prod.mk.inj h
    exact ⟨ha, rfl⟩
  | failed f =>
    cases tolerant <;> obtain ⟨rfl, rfl⟩ := Prod.mk.inj h <;> exact ⟨ha, rfl⟩

theorem over_turned {a : Act} {rest : List Act} {tolerant : Bool} {p : Act.Progress}
    (hs : Sent r me (Task.call (a :: rest) tolerant).delivery? s) (ha : a.member? = none)
    (ht : (Task.call (a :: rest) tolerant).Ordered)
    (hp : ∀ more, p = .going more → ∀ b ∈ more, b.isPlain = true) :
    Turned r me (.call (a :: rest) tolerant) s (p.task rest tolerant) := by
  refine .routine hs ?_
  cases p with
  | going more => exact .goesOn r ha ht (hp more rfl)
  | answer status => exact .ends r _ ha ht
  | failed f =>
    cases tolerant with
    | false => exact .ends r _ ha ht
    | true =>
      have none : ∀ b ∈ ([] : List Act), b.isPlain = true := by simp
      exact .goesOn r ha ht none

theorem deliver_turned {d : Delivery} {rest : List Act} {tolerant : Bool} {p : Act.Progress}
    (h : r.act me (.deliver d) = some (s, p)) (ht : (Task.call (.deliver d :: rest) tolerant).Ordered) :
    Turned r me (.call (.deliver d :: rest) tolerant) s (p.task rest tolerant) := by
  obtain ⟨⟨s', q⟩, hd, h⟩ := Option.map_eq_some_iff.mp h
  obtain ⟨hsent, hheld⟩ := deliver_sent hd
  rcases q with d' | (f | u)
  · obtain ⟨rfl, rfl⟩ := Prod.mk.inj h
    exact .routine hsent (.stays rfl rfl ht (hheld d' rfl))
  · obtain ⟨rfl, rfl⟩ := Prod.mk.inj h
    exact over_turned hsent rfl ht (by simp)
  · obtain ⟨rfl, rfl⟩ := Prod.mk.inj h
    exact over_turned hsent rfl ht (by simp)

theorem callCycle_turned {n : Nat} {c : Cycle} {rest : List Act} {tolerant : Bool} {p : Act.Progress}
    (h : r.act me (.cycle n c) = some (s, p)) (ht : (Task.call (.cycle n c :: rest) tolerant).Ordered) :
    Turned r me (.call (.cycle n c :: rest) tolerant) s (p.task rest tolerant) := by
  simp only [act] at h
  split at h
  · obtain ⟨rfl, rfl⟩ := Prod.mk.inj (Option.some.inj h)
    exact over_turned (.inl (.refl r)) rfl ht (by simp)
  · rename_i sc hs
    obtain ⟨⟨s', q⟩, hc, h⟩ := Option.map_eq_some_iff.mp h
    obtain ⟨hsent, hheld⟩ := cycle_sent hs hc
    cases q with
    | going c' =>
      obtain ⟨rfl, rfl⟩ := Prod.mk.inj h
      exact .routine hsent (.stays rfl rfl ht (hheld c' rfl))
    | «over» status =>
      obtain ⟨rfl, rfl⟩ := Prod.mk.inj h
      exact over_turned hsent rfl ht (by simp)

theorem removeSource_turned {k : Key} {rest : List Act} {tolerant : Bool}
    (ht : (Task.call (.removeSource k :: rest) tolerant).Ordered) :
    Turned r me (.call (.removeSource k :: rest) tolerant) (r.removeSource k).1
      ((r.removeSource k).2.task rest tolerant) := by
  rw [removeSource]
  split
  · rename_i x hx
    exact .removesSource hx
  · exact over_turned (.inl (.refl r)) rfl ht (by simp)

theorem removeDrain_turned {k : Key} {rest : List Act} {tolerant : Bool}
    (ht : (Task.call (.removeDrain k :: rest) tolerant).Ordered) :
    Turned r me (.call (.removeDrain k :: rest) tolerant) (r.removeDrain k).1
      ((r.removeDrain k).2.task rest tolerant) := by
  rw [removeDrain]
  split
  · rename_i d hd
    exact .removesDrain hd
  · exact over_turned (.inl (.refl r)) rfl ht (by simp)

theorem forgets_aside (r : Relay) (k : Key) :
    Aside r (if r.reportEvery.isSome then r.forgetDiscovery k else r) ∧
      Aside r (if r.reportEvery.isSome then r.forgetCollector k else r) := by
  cases r.reportEvery with
  | none => exact ⟨.refl r, .refl r⟩
  | some every => exact ⟨(Aside.record r rfl).trans (.board _ _), (Aside.record r rfl).trans (.board _ _)⟩

theorem callStep_turned {a : Act} {rest : List Act} {tolerant : Bool} {t' : Task}
    (h : r.callStep me (a :: rest) tolerant = some (s, t')) (ht : (Task.call (a :: rest) tolerant).Ordered) :
    Turned r me (.call (a :: rest) tolerant) s t' := by
  obtain ⟨p, ha, rfl⟩ := callStep_cons h
  have waits {more : List Act} (hm : ∀ b ∈ more, b.isPlain = true) :
      ∀ more', Act.Progress.going more = .going more' → ∀ b ∈ more', b.isPlain = true := by
    intro more' h
    injection h with h
    rwa [← h]
  cases a with
  | deliver d => exact deliver_turned ha ht
  | cycle n c => exact callCycle_turned ha ht
  | sleep due =>
    simp only [act] at ha
    split at ha
    · obtain ⟨rfl, rfl⟩ := Prod.mk.inj (Option.some.inj ha)
      exact over_turned (.inl (.refl r)) rfl ht (waits (by simp))
    · simp at ha
  | await tasks =>
    simp only [act] at ha
    split at ha
    · obtain ⟨rfl, rfl⟩ := Prod.mk.inj (Option.some.inj ha)
      exact over_turned (.inl (.refl r)) rfl ht (waits (by simp))
    · simp at ha
  | removeSource k =>
    obtain ⟨rfl, rfl⟩ := Prod.mk.inj (Option.some.inj ha)
    exact removeSource_turned ht
  | stopSource x =>
    obtain ⟨rfl, rfl⟩ := Prod.mk.inj (Option.some.inj ha)
    exact .stopsSource
  | joinSource x =>
    obtain ⟨rfl, rfl⟩ := Prod.mk.inj (Option.some.inj ha)
    exact over_turned (.inl (.joinSource r x)) rfl ht (waits (by simp [Act.isPlain]))
  | forgetDiscovery k =>
    obtain ⟨rfl, rfl⟩ := Prod.mk.inj (Option.some.inj ha)
    exact over_turned (.inl (forgets_aside r k).1) rfl ht (waits (by simp))
  | removeDrain k =>
    obtain ⟨rfl, rfl⟩ := Prod.mk.inj (Option.some.inj ha)
    exact removeDrain_turned ht
  | closeDrain d =>
    obtain ⟨rfl, rfl⟩ := Prod.mk.inj (Option.some.inj ha)
    exact .closesDrain
  | closeSink sink =>
    obtain ⟨rfl, rfl⟩ := Prod.mk.inj (Option.some.inj ha)
    exact over_turned (.inl (.record r rfl)) rfl ht (waits (by simp))
  | forgetCollector k =>
    obtain ⟨rfl, rfl⟩ := Prod.mk.inj (Option.some.inj ha)
    exact over_turned (.inl (forgets_aside r k).2) rfl ht (waits (by simp))
  | removeSources =>
    obtain ⟨rfl, rfl⟩ := Prod.mk.inj (Option.some.inj ha)
    exact over_turned (.inl (.refl r)) rfl ht (waits (by simp [Act.isPlain]))
  | removeDrains =>
    obtain ⟨rfl, rfl⟩ := Prod.mk.inj (Option.some.inj ha)
    exact over_turned (.inl (.refl r)) rfl ht (waits (by simp [Act.isPlain]))

theorem Routine.actless {t t' : Task} (hw : t.isWorker = false) (hw' : t'.isWorker = false) (ha : t.acts = [])
    (ha' : t'.acts = []) (hh : Held r t.delivery? t'.delivery?) : Routine r t t' :=
  ⟨hw, hw', by simp [Task.pending, ha], by simp [Task.pending, ha'], by simp [Task.Ordered, ha'], hh⟩

theorem report_turned {n next : Nat} {aborted : Bool} {stage : Reporter} {p : Pool} {t' : Task}
    (hp : r.pools.get? n = some p) (h : r.report n p aborted next stage = some (s, t')) :
    Turned r me (.reporter n aborted next stage) s t' := by
  cases stage with
  | sleeping =>
    simp only [report] at h
    split at h
    · obtain ⟨rfl, rfl⟩ := Prod.mk.inj (Option.some.inj h)
      exact .routine (.inl (.refl r)) (.actless rfl rfl rfl rfl (.none r _))
    · split at h
      · obtain ⟨rfl, rfl⟩ := Prod.mk.inj (Option.some.inj h)
        exact .routine (.inl (.refl r)) (.actless rfl rfl rfl rfl (.none r _))
      · simp at h
  | counting | measuring registered =>
    obtain ⟨rfl, rfl⟩ := Prod.mk.inj (Option.some.inj h)
    exact .routine (.inl (.refl r)) (.actless rfl rfl rfl rfl (.none r _))
  | summing registered inFlight =>
    obtain ⟨rfl, rfl⟩ := Prod.mk.inj (Option.some.inj h)
    exact .measures hp
  | writing status =>
    obtain ⟨rfl, rfl⟩ := Prod.mk.inj (Option.some.inj h)
    exact .routine (.inl (.reportCollector r _ _)) (.actless rfl rfl rfl rfl (.none r _))

theorem loopStep_turned {n due : Nat} {stage : Loop} {sc : Scout} {t' : Task} (hs : r.scouts.get? n = some sc)
    (h : r.loopStep me n due sc stage = some (s, t')) : Turned r me (.loop n due stage) s t' := by
  cases stage with
  | resting =>
    simp only [loopStep] at h
    split at h
    · obtain ⟨rfl, rfl⟩ := Prod.mk.inj (Option.some.inj h)
      exact .routine (.inl (.refl r)) (.actless rfl rfl rfl rfl (.none r _))
    · split at h
      · obtain ⟨rfl, rfl⟩ := Prod.mk.inj (Option.some.inj h)
        exact .routine (.inl (.refl r)) (.actless rfl rfl rfl rfl (.none r _))
      · simp at h
  | cycling c =>
    obtain ⟨⟨s', q⟩, hc, h⟩ := Option.map_eq_some_iff.mp h
    obtain ⟨hsent, hheld⟩ := cycle_sent hs hc
    cases q with
    | going c' =>
      obtain ⟨rfl, rfl⟩ := Prod.mk.inj h
      exact .routine hsent (.actless rfl rfl rfl rfl (hheld c' rfl))
    | «over» status =>
      obtain ⟨rfl, rfl⟩ := Prod.mk.inj h
      exact .routine hsent (.actless rfl rfl rfl rfl (.none r _))

theorem turn_turned {t t' : Task} (h : r.turn me t = some (s, t')) (ht : t.Ordered) : Turned r me t s t' := by
  cases t with
  | worker n c w =>
    simp only [turn] at h
    split at h
    · rename_i p hp
      exact .works hp (work_worked h)
    · rename_i hp
      obtain ⟨rfl, rfl⟩ := Prod.mk.inj (Option.some.inj h)
      exact .strays hp
  | reporter n aborted next stage =>
    simp only [turn] at h
    split at h
    · rename_i p hp
      exact report_turned hp h
    · obtain ⟨rfl, rfl⟩ := Prod.mk.inj (Option.some.inj h)
      exact .routine (.inl (.refl r)) (.actless rfl rfl rfl rfl (.none r _))
  | retirement sink workers =>
    simp only [turn] at h
    split at h
    · obtain ⟨rfl, rfl⟩ := Prod.mk.inj (Option.some.inj h)
      exact .routine (.inl (.record r rfl)) (.actless rfl rfl rfl rfl (.none r _))
    · simp at h
  | loop n due stage =>
    simp only [turn] at h
    split at h
    · rename_i sc hs
      exact loopStep_turned hs h
    · obtain ⟨rfl, rfl⟩ := Prod.mk.inj (Option.some.inj h)
      exact .routine (.inl (.refl r)) (.actless rfl rfl rfl rfl (.none r _))
  | announcement n =>
    simp only [turn] at h
    split at h
    · obtain ⟨rfl, rfl⟩ := Prod.mk.inj (Option.some.inj h)
      exact .routine (.inl (.writeStatus r _ _)) (.actless rfl rfl rfl rfl (.none r _))
    · obtain ⟨rfl, rfl⟩ := Prod.mk.inj (Option.some.inj h)
      exact .routine (.inl (.refl r)) (.actless rfl rfl rfl rfl (.none r _))
  | call acts tolerant =>
    cases acts with
    | nil =>
      obtain ⟨rfl, rfl⟩ := Prod.mk.inj (Option.some.inj h)
      exact .routine (.inl (.refl r)) (.actless rfl rfl rfl rfl (.none r _))
    | cons a rest => exact callStep_turned h ht
  | ended o => simp [turn] at h

end ScrapeRelay.Relay

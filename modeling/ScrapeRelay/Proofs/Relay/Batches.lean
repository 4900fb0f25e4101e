import Mathlib.Data.List.Induction
import ScrapeRelay.Proofs.Relay.Deliveries
import ScrapeRelay.Proofs.Relay.Manned

/-!
What becomes of a batch that a call sends. Its targets enter, in order, the one channel that was under the key
when the call looked; what the call has not brought in when it fails, it never brings in.
-/

namespace ScrapeRelay.Relay

abbrev Carried (r : Relay) (me c : Nat) (sent : List Target) : Prop := Carries r me [] c sent

variable {r s : Relay} {me n c i w : Nat} {t t' : Task} {k : Key} {m : Move} {sent : List Target}

/-! The turns of the sender -/

/-- How far a call has come with its batch; the last argument is what it found under the key when it looked. -/
inductive Sending (r : Relay) (me : Nat) (k : Key) (batch : List Target) (limit : Option Limit) :
    Option (Option Nat) → Prop
  | asking (ht : r.tasks.get? me = some (.call [.deliver (.start k batch limit)] false)) (hc : Clear r me []) :
      Sending r me k batch limit none
  | unknown (ht : r.tasks.get? me = some (.ended (.error (unknownChannel k)))) (hc : ∀ c, Carried r me c []) :
      Sending r me k batch limit (some none)
  | pushing {c : Nat} {rest : List Target}
      (ht : r.tasks.get? me = some (.call [.deliver ⟨k, rest, limit, .pushing c⟩] false))
      (h : Conveyed r me [] batch ⟨k, rest, limit, .pushing c⟩) : Sending r me k batch limit (some (some c))
  | stuck {c : Nat} {rest : List Target}
      (ht : r.tasks.get? me = some (.call [.deliver ⟨k, rest, limit, .stuck c⟩] false))
      (h : Conveyed r me [] batch ⟨k, rest, limit, .stuck c⟩) : Sending r me k batch limit (some (some c))
  | whole {c : Nat} (ht : r.tasks.get? me = some (.call [] false) ∨ r.tasks.get? me = some finished)
      (hc : Carried r me c batch) (hl : r.inLine me c = []) : Sending r me k batch limit (some (some c))
  | late {c : Nat} {l : Limit} {sent : List Target}
      (ht : r.tasks.get? me = some (.ended (.error (lateDelivery k l))))
      (hd : limit = some l) (hb : sent <+: batch) (hc : Carried r me c sent) (hl : r.inLine me c = []) :
      Sending r me k batch limit (some (some c))

variable {batch rest : List Target} {limit : Option Limit} {found : Option (Option Nat)} {d : Delivery}

theorem Sending.others (h : Sending r me k batch limit found) (hn : Numbered r) (hm : r.move m = some s)
    (hne : m ≠ .turn me) : Sending s me k batch limit found := by
  obtain ⟨i, ts, ha⟩ := move_admits hn hm hne
  have kept {t : Task} (ht : r.tasks.get? me = some t)
      (hrep : ∀ n aborted next stage, t ≠ .reporter n aborted next stage) :
      s.tasks.get? me = some t := task_kept hn hm ht hne hrep
  have clear {c : Nat} {sent : List Target} (hc : Carried r me c sent) (hl : r.inLine me c = []) :
      s.inLine me c = [] :=
    ((hc.clear hl).admits ha).line c
  cases h with
  | asking ht hc => exact .asking (kept ht (by simp)) (hc.admits ha)
  | unknown ht hc => exact .unknown (kept ht (by simp)) fun c => (hc c).admits ha
  | pushing ht h => exact .pushing (kept ht (by simp)) (h.admits ha)
  | stuck ht h => exact .stuck (kept ht (by simp)) (h.admits ha)
  | whole ht hc hl =>
    exact .whole (ht.imp (kept · (by simp)) (kept · (by simp [finished]))) (hc.admits ha) (clear hc hl)
  | late ht hd hb hc hl => exact .late (kept ht (by simp)) hd hb (hc.admits ha) (clear hc hl)

def Delivery.Progress.sender : Delivery.Progress → Task
  | going d => .call [.deliver d] false
  | «over» (.ok ()) => .call [] false
  | «over» (.error f) => .ended (.error f)

theorem step_sender (ht : r.tasks.get? me = some (.call [.deliver d] false)) (hm : r.step me = some s) :
    ∃ s' p, Forwarded r me d s' p ∧ s = s'.setTask me p.sender := by
  simp only [step, ht, Option.bind_some, turn, callStep, act] at hm
  cases hd : r.deliver me d with
  | none => simp [hd] at hm
  | some q =>
    obtain ⟨s', p⟩ := q
    refine ⟨s', p, deliver_forwarded hd, ?_⟩
    rw [hd] at hm
    rcases p with d' | (f | ⟨⟨⟩⟩) <;> exact (Option.some.inj hm).symm

theorem Sending.looks (ht : r.tasks.get? me = some (.call [.deliver (.start k batch limit)] false))
    (hc : Clear r me []) (hm : r.step me = some s) :
    Sending s me k batch limit (some (r.registry.channels.get? k)) := by
  obtain ⟨s', p, hf, rfl⟩ := step_sender ht hm
  have h : Conveyed r me [] batch (.start k batch limit) := .unaddressed hc
  cases hf with
  | finds hk =>
    rw [hk]
    exact .pushing (get?_setTask _ _ _) ((h.going (.finds hk)).setTask _ _)
  | misses hk =>
    rw [hk]
    exact .unknown (get?_setTask _ _ _) fun c => Clear.carries (by simpa using hc.setTask _ _)

theorem Sending.goesOn {c : Nat} (hd : d.channel? = some c) (hk : d.key = k) (hl : d.limit = limit)
    (ht : r.tasks.get? me = some (.call [.deliver d] false)) (h : Conveyed r me [] batch d)
    (hrec : r.hasReceiver c = true) (hm : r.step me = some s) : Sending s me k batch limit (some (some c)) := by
  obtain ⟨s', p, hf, rfl⟩ := step_sender ht hm
  cases p with
  | going d' =>
    have h' := (h.going hf).setTask me (.call [.deliver d'] false)
    cases hf with
    | finds => simp [Delivery.channel?] at hd
    | enters | resumes =>
      obtain ⟨rfl, rfl, rfl⟩ : _ = c ∧ _ = k ∧ _ = limit := ⟨Option.some.inj hd, hk, hl⟩
      exact .pushing (get?_setTask _ _ _) h'
    | blocks =>
      obtain ⟨rfl, rfl, rfl⟩ : _ = c ∧ _ = k ∧ _ = limit := ⟨Option.some.inj hd, hk, hl⟩
      exact .stuck (get?_setTask _ _ _) h'
  | «over» result =>
    obtain ⟨o, ho, hc⟩ := h.over hf
    cases ho with
    | unknown => simp [Delivery.channel?] at hd
    | whole =>
      obtain rfl := Option.some.inj hd
      exact .whole (.inl (get?_setTask _ _ _)) (hc.setTask _ _).carries (hc.line _)
    | late hdue hp =>
      obtain ⟨rfl, rfl⟩ : _ = c ∧ _ = k := ⟨Option.some.inj hd, hk⟩
      exact .late (get?_setTask _ _ _) hl.symm hp (hc.setTask _ _).carries (hc.line _)
    | closed hd' hclosed =>
      obtain rfl := Option.some.inj (hd.symm.trans hd')
      simp [hrec] at hclosed

theorem Sending.own (h : Sending r me k batch limit found) (hs : Staffed r) (hm : r.step me = some s) :
    Sending s me k batch limit (some (found.getD (r.registry.channels.get? k))) := by
  cases h with
  | asking ht hc => exact .looks ht hc hm
  | pushing ht h => exact .goesOn rfl rfl rfl ht h (hs.receiver ht rfl) hm
  | stuck ht h => exact .goesOn rfl rfl rfl ht h (hs.receiver ht rfl) hm
  | whole ht hc hl =>
    rcases ht with ht | ht
    · simp only [step, ht, Option.bind_some, turn, callStep, Option.map_some] at hm
      obtain rfl := Option.some.inj hm
      exact .whole (.inr (get?_setTask _ _ _)) ((hc.clear hl).setTask _ _).carries hl
    · simp [step, ht, turn, finished] at hm
  | unknown ht | late ht => simp [step, ht, turn] at hm

/-! Runs -/

/-- In a run, the first turn of a call found so much under a key. -/
def LookedUp (r : Relay) (me : Nat) (k : Key) (ms : List Move) (found : Option Nat) : Prop :=
  ∃ before rest s, ms = before ++ .turn me :: rest ∧ .turn me ∉ before ∧ r.replay before = some s ∧
    s.registry.channels.get? k = found

theorem LookedUp.concat {ms : List Move} {found : Option Nat} (h : LookedUp r me k ms found) (m : Move) :
    LookedUp r me k (ms ++ [m]) found := by
  obtain ⟨before, rest, s, rfl, hb, hs, hk⟩ := h
  exact ⟨before, rest ++ [m], s, by simp, hb, hs, hk⟩

theorem Sending.run {ms : List Move} (h : Sending r me k batch limit none) (hr : Staffed r)
    (hp : ∀ m ∈ ms, m.isPooled = true) (hs : r.replay ms = some s) :
    (.turn me ∉ ms ∧ Sending s me k batch limit none) ∨
      ∃ found, LookedUp r me k ms found ∧ Sending s me k batch limit (some found) := by
  induction ms using List.reverseRecOn generalizing s with
  | nil =>
    obtain rfl := Option.some.inj hs
    exact .inl ⟨by simp, h⟩
  | append_singleton ms m ih =>
    rw [replay_concat] at hs
    obtain ⟨u, hu, hm⟩ := Option.bind_eq_some_iff.mp hs
    have hpu : ∀ m ∈ ms, m.isPooled = true := fun m hm => hp m (List.mem_append_left _ hm)
    have hsu := hr.replay hpu hu
    by_cases hme : m = .turn me
    · subst hme
      rcases ih hpu hu with ⟨hn, hsend⟩ | ⟨found, hf, hsend⟩
      · exact .inr ⟨_, ⟨ms, [], u, rfl, hn, hu, rfl⟩, hsend.own hsu hm⟩
      · exact .inr ⟨found, hf.concat _, hsend.own hsu hm⟩
    · rcases ih hpu hu with ⟨hn, hsend⟩ | ⟨found, hf, hsend⟩
      · refine .inl ⟨?_, hsend.others hsu.reachable.numbered hm hme⟩
        simpa [Ne.symm hme] using hn
      · exact .inr ⟨found, hf.concat m, hsend.others hsu.reachable.numbered hm hme⟩

/-! Calls -/

theorem Reachable.unsent (hr : Reachable r) : ∀ me, r.fresh ≤ me → Clear r me [] := by
  refine hr.holds (P := fun r => ∀ me, r.fresh ≤ me → Clear r me []) ?_ ?_
  · exact fun inventory network every me _ => ⟨rfl, fun _ => rfl⟩
  · intro r m s hr h hm me hme
    have hn := hr.numbered
    have hle : r.fresh ≤ me := Nat.le_trans (move_fresh hn hm) hme
    have hne : m ≠ .turn me := by
      rintro rfl
      simp [move, step, hn.tasks me hle] at hm
    obtain ⟨i, ts, ha⟩ := move_admits hn hm hne
    exact (h me hle).admits ha

theorem Sending.start {allowed : Option Nat} (hr : Reachable r)
    (hm : r.move (.call (.send k batch allowed)) = some s) :
    Sending s r.fresh k batch (allowed.map fun n => ⟨n, r.clock + n⟩) none := by
  obtain rfl := Option.some.inj hm
  have hc := hr.unsent r.fresh (Nat.le_refl _)
  refine .asking ?_ ⟨hc.brought, hc.line⟩
  simp [Relay.call, spawn, setTask, Call.acts, sendCall, Call.isTolerant]

theorem brought_pushed (h : r.brought me = sent.map (c, ·)) : sent.Sublist (r.pushed c) := by
  simpa [broughtTo, h, List.filterMap_map, Function.comp_def] using r.broughtTo_pushed me c

theorem unknownChannel_ne_closed (k : Key) : unknownChannel k ≠ closedChannel k := by
  intro h
  have hlen := congrArg String.length (Failure.notFound.inj h)
  simp only [String.length_append] at hlen
  have hpos : 0 < (toString " closed").length := by decide
  omega

/-- Deleting or replacing a pool does not cut a batch short. A call that succeeds brought its whole batch, in
order, into the channel that was under the key at its first turn. A call that fails brought nothing, or its time
was up: then it brought a first part of the batch, which a worker has taken or which is still in the queue.
Nobody finds a channel closed. -/
theorem sends_whole {inventory : Cluster.Inventory} {network : Network} {every : Option Nat}
    {before after : List Move} {r s t : Relay} {k : Key} {batch : List Target} {allowed : Option Nat}
    (hp : ∀ m ∈ before ++ after, m.isPooled = true)
    (hr : (start inventory network every).replay before = some r)
    (hs : r.move (.call (.send k batch allowed)) = some s) (ht : s.replay after = some t) :
    (∀ status, t.tasks.get? r.fresh = some (.ended (.ok status)) →
      ∃ c, LookedUp s r.fresh k after (some c) ∧ t.brought r.fresh = batch.map (c, ·)) ∧
    (∀ f, t.tasks.get? r.fresh = some (.ended (.error f)) → f ≠ closedChannel k ∧
      (f = unknownChannel k ∧ LookedUp s r.fresh k after none ∧ t.brought r.fresh = [] ∨
        ∃ n c sent, allowed = some n ∧ f = lateDelivery k ⟨n, r.clock + n⟩ ∧
        LookedUp s r.fresh k after (some c) ∧
          sent <+: batch ∧ t.brought r.fresh = sent.map (c, ·) ∧ sent.Sublist (t.pushed c) ∧
          t.received c ++ (t.channel c).queue = t.pushed c)) ∧
    ∀ w u c, t.tasks.get? w = some u → u.outbound? = some c → t.hasReceiver c = true := by
  obtain ⟨hpb, hpa⟩ := List.forall_mem_append.mp hp
  have hstaff := (Staffed.start inventory network every).replay hpb hr
  have hcalled : Staffed s := hstaff.move (m := .call (.send k batch allowed)) rfl hs
  have hdone := hcalled.replay hpa ht
  have brings {c : Nat} {sent : List Target} (hc : Carried t r.fresh c sent) (hl : t.inLine r.fresh c = []) :
      t.brought r.fresh = sent.map (c, ·) := by simpa [hl] using hc.here
  refine ⟨fun status he => ?_, fun f he => ?_, fun w u c hu ho => hdone.receiver hu ho⟩
  · rcases (Sending.start hstaff.reachable hs).run hcalled hpa ht with ⟨-, hsend⟩ | ⟨found, hf, hsend⟩
    · cases hsend with
      | asking h => simp [h] at he
    · cases hsend with
      | unknown h | late h => simp [h] at he
      | pushing h | stuck h => simp [h] at he
      | whole h hc hl => exact ⟨_, hf, brings hc hl⟩
  · rcases (Sending.start hstaff.reachable hs).run hcalled hpa ht with ⟨-, hsend⟩ | ⟨found, hf, hsend⟩
    · cases hsend with
      | asking h => simp [h] at he
    · cases hsend with
      | unknown h hc =>
        obtain rfl : unknownChannel k = f := by simpa [h] using he
        have hb : t.brought r.fresh = [] := (List.append_eq_nil_iff.mp (hc 0).here).1
        exact ⟨unknownChannel_ne_closed k, .inl ⟨rfl, hf, hb⟩⟩
      | pushing h | stuck h => simp [h] at he
      | whole h => rcases h with h | h <;> simp [h, finished] at he
      | late h hd hb hc hl =>
        obtain rfl : lateDelivery k _ = f := by simpa [h] using he
        obtain ⟨n, rfl, rfl⟩ := Option.map_eq_some_iff.mp hd
        have hbr := brings hc hl
        exact ⟨by simp [lateDelivery, closedChannel], .inr ⟨n, _, _, rfl, rfl, hf, hb, hbr, brought_pushed hbr,
          hdone.reachable.handedOff.conserved _⟩⟩

/-- While a call stands in the line of a channel, another one deletes the pool and a new pool is installed. -/
def deleting (k : Key) : List Move :=
  [.turn 4, .turn 4, .turn 4, .call (.removePool k), .turn 5, .turn 5, .addPool k .standard 1 (fun _ => true) none,
    .turn 3, .turn 4, .turn 4, .turn 3, .turn 3, .turn 4, .turn 4, .turn 4]

def Task.succeeded : Task → Bool
  | .ended (.ok _) => true
  | _ => false

theorem sends_whole_deleting :
    let k : Key := ⟨"monitoring", "pool"⟩
    let batch := ["10.0.0.1", "10.0.0.2", "10.0.0.3"].map fun ip => { Target.ofAnnotations .empty "" with ip }
    ∃ r s t, (start .empty .silent none).replay [.addPool k .standard 1 (fun _ => true) none] = some r ∧
      r.move (.call (.send k batch none)) = some s ∧ s.replay (deleting k) = some t ∧
      t.registry.channels.get? k = some 8 ∧
      ∃ c, LookedUp s r.fresh k (deleting k) (some c) ∧ t.brought r.fresh = batch.map (c, ·) := by
  intro k batch
  have facts : ((start .empty .silent none).replay [.addPool k .standard 1 (fun _ => true) none]).bind (fun r =>
      (r.move (.call (.send k batch none))).bind fun s => (s.replay (deleting k)).map fun t =>
        ((t.tasks.get? r.fresh).any Task.succeeded, t.registry.channels.get? k)) = some (true, some 8) := by
    decide +kernel
  obtain ⟨r, hr, facts⟩ := Option.bind_eq_some_iff.mp facts
  obtain ⟨s, hs, facts⟩ := Option.bind_eq_some_iff.mp facts
  obtain ⟨t, ht, facts⟩ := Option.map_eq_some_iff.mp facts
  obtain ⟨hended, hnew⟩ := Prod.mk.inj facts
  obtain ⟨u, hu, hsucc⟩ := (Option.any_eq_true _ _).mp hended
  refine ⟨r, s, t, hr, hs, ht, hnew, ?_⟩
  cases u with
  | ended o =>
    cases o with
    | ok status => exact (sends_whole (by decide) hr hs ht).1 status hu
    | error f => simp [Task.succeeded] at hsucc
  | _ => simp [Task.succeeded] at hsucc

end ScrapeRelay.Relay

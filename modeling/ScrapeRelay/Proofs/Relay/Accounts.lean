import ScrapeRelay.Proofs.Relay.Crews
import ScrapeRelay.Proofs.Relay.Process

/-!
The counters of a pool, whoever works at the same time. Every target that a worker is done with was one visit;
what the pool counted is what its visits come to together, and so are the payloads that its sink was offered.
-/

namespace ScrapeRelay.Relay

open Collector (Pipeline Sums)

/-- What a worker made of one target so far: the metrics that are done with and what the sink said to their
payloads. -/
structure Visit where
  worker : Nat
  pool : Nat
  target : Target
  outcome : Except Failure (List Metric)
  answers : List (Metric × Bool)

namespace Visit

def metrics (v : Visit) : List Metric :=
  match v.outcome with
  | .ok ms => ms
  | .error _ => []

def sums (p : Pipeline) (v : Visit) : Sums :=
  match v.outcome with
  | .ok _ => p.tally v.answers
  | .error _ => ⟨0, 1, 0⟩

def offers (p : Pipeline) (v : Visit) : List (String × Bool) := p.offers v.answers

def answer (v : Visit) (a : Metric × Bool) : Visit := { v with answers := v.answers ++ [a] }

@[simp] theorem answer_worker (v : Visit) (a : Metric × Bool) : (v.answer a).worker = v.worker := rfl
@[simp] theorem answer_pool (v : Visit) (a : Metric × Bool) : (v.answer a).pool = v.pool := rfl

def IsDone (v : Visit) : Prop := v.answers.map (·.1) = v.metrics

/-- A worker of the pool had the target in hand once, and this is what it found then. -/
def MadeBefore (v : Visit) (p : Pipeline) (r : Relay) : Prop :=
  ∃ s c, Reachable s ∧ Later s r ∧ s.tasks.get? v.worker = some (.worker v.pool c (.holding v.target)) ∧
    v.outcome = p.scrape s.network s.now v.target

variable {v : Visit} {p : Pipeline} {ms : List Metric}

theorem sums_answer (h : v.outcome = .ok ms) (a : Metric × Bool) : (v.answer a).sums p = v.sums p + p.sums a := by
  have hone : p.tally [a] = p.sums a := List.sum_singleton
  simp only [sums, answer, h, Pipeline.tally_append, hone]

theorem offers_answer (v : Visit) (a : Metric × Bool) : (v.answer a).offers p = v.offers p ++ p.offers [a] :=
  Pipeline.offers_append _ _

theorem IsDone.accounts (h : v.IsDone) (p : Pipeline) : p.Accounts v.outcome (v.sums p) (v.offers p) := by
  unfold IsDone metrics at h
  unfold sums offers
  cases ho : v.outcome with
  | ok ms =>
    rw [ho] at h
    exact Pipeline.tally_accounts h
  | error f =>
    rw [ho] at h
    rw [List.map_eq_nil_iff.mp h]
    exact .failure f

end Visit

def visitsTo (n : Nat) (log : List Visit) : List Visit := log.filter (·.pool == n)

def visitsBy (w : Nat) (log : List Visit) : List Visit := log.filter (·.worker == w)

def Event.isOutcome : Event → Bool
  | .handled .. | .offered .. => true
  | _ => false

def Event.offeredAt? (sink : Nat) : Event → Option (String × Bool)
  | .offered sink' _ text accepted => if sink' = sink then some (text, accepted) else none
  | _ => none

def Event.offeredTo? (sink w : Nat) : Event → Option (String × Bool)
  | .offered sink' w' text accepted => if sink' = sink ∧ w' = w then some (text, accepted) else none
  | _ => none

def offeredAt (r : Relay) (sink : Nat) : List (String × Bool) := r.told (Event.offeredAt? sink)

def offeredTo (r : Relay) (sink w : Nat) : List (String × Bool) := r.told (Event.offeredTo? sink w)

def Task.page? : Task → Option (Nat × Target × List Metric)
  | .worker n _ (.shipping t rest) => some (n, t, rest)
  | _ => none

def page? (r : Relay) (w : Nat) : Option (Nat × Target × List Metric) := (r.tasks.get? w).bind Task.page?

/-- The visits of a worker, the latest first: they are over and told but for the one that it is at. -/
inductive Desk : List Target → List Visit → Option (Nat × Target × List Metric) → Prop
  | cleared {visits : List Visit} (hd : ∀ v ∈ visits, v.IsDone) :
      Desk (visits.map (·.target)).reverse visits none
  | busy {v : Visit} {older : List Visit} {rest : List Metric}
      (hv : v.outcome = .ok (v.answers.map (·.1) ++ rest))
      (hd : ∀ u ∈ older, u.IsDone) :
      Desk (older.map (·.target)).reverse (v :: older) (some (v.pool, v.target, rest))

theorem Desk.of_cleared {told : List Target} {visits : List Visit} (h : Desk told visits none) :
    (∀ v ∈ visits, v.IsDone) ∧ told = (visits.map (·.target)).reverse := by
  cases h with
  | cleared hd => exact ⟨hd, rfl⟩

theorem Desk.of_busy {told : List Target} {visits : List Visit} {n : Nat} {t : Target} {rest : List Metric}
    (h : Desk told visits (some (n, t, rest))) :
    ∃ v older, visits = v :: older ∧ v.pool = n ∧ v.target = t ∧
      v.outcome = .ok (v.answers.map (·.1) ++ rest) ∧ (∀ u ∈ older, u.IsDone) ∧
      told = (older.map (·.target)).reverse := by
  cases h with
  | busy hv hd => exact ⟨_, _, rfl, rfl, rfl, hv, hd, rfl⟩

theorem Desk.done {v : Visit} {older : List Visit} (hv : v.IsDone) (hd : ∀ u ∈ older, u.IsDone) :
    Desk ((older.map (·.target)).reverse ++ [v.target]) (v :: older) none := by
  rw [← List.reverse_cons]
  exact cleared (List.forall_mem_cons.mpr ⟨hv, hd⟩)

theorem page?_plain {t : Task} (h : t.isWorker = false) : t.page? = none := by
  cases t <;> simp_all [Task.isWorker, Task.page?]

theorem page?_empty {t : Task} (h : t.inHand? = none) : t.page? = none := by
  cases t with
  | worker n c w =>
    cases w with
    | shipping y rest => cases h
    | _ => rfl
  | _ => rfl

def Visit.FitsIn (v : Visit) (log : List Visit) (r : Relay) : Prop :=
  (∃ u ∈ log, u.worker = v.worker ∧ u.pool = v.pool) ∨
  ∃ c x, r.tasks.get? v.worker = some (.worker v.pool c x)

def OnCrew (r : Relay) (w n : Nat) : Prop :=
  ∃ t, r.tasks.get? w = some t ∧ ((∃ c x, t = .worker n c x) ∨ t.isEnded = true)

structure Onward (r s : Relay) : Prop where
  later : Later r s
  crews : ∀ w n, OnCrew r w n → OnCrew s w n

/-- A log of visits, the latest first, that agrees with what was counted and told. -/
structure Booked (log : List Visit) (r : Relay) : Prop where
  sinks : ∀ n p, r.pools.get? n = some p → p.sink + 1 = n
  origins : ∀ sink w text accepted, .offered sink w text accepted ∈ r.journal →
    (r.pools.get? (sink + 1)).isSome = true
  counted : ∀ n p, r.pools.get? n = some p →
    countersOf p.status = countersOf (.count .zero ((visitsTo n log).map (·.sums p.pipeline)).sum)
  shared : ∀ n p, r.pools.get? n = some p →
    (r.offeredAt p.sink).Perm ((visitsTo n log).flatMap (·.offers p.pipeline))
  ordered : ∀ n p w, r.pools.get? n = some p →
    r.offeredTo p.sink w = (visitsBy w (visitsTo n log)).reverse.flatMap (·.offers p.pipeline)
  desks : ∀ w, Desk (r.handledBy w) (visitsBy w log) (r.page? w)
  made : ∀ v ∈ log, ∃ p, r.pools.get? v.pool = some p ∧ v.MadeBefore p.pipeline r
  crews : ∀ v ∈ log, OnCrew r v.worker v.pool

structure Idle (r s : Relay) : Prop where
  pools : ∀ n p, r.pools.get? n = some p → ∃ q, s.pools.get? n = some q ∧ SamePool p q
  founded : ∀ n q, r.pools.get? n = none → s.pools.get? n = some q → q.sink + 1 = n ∧
    countersOf q.status = ⟨0, 0, 0, 0⟩
  journal : ∃ events, s.journal = events ++ r.journal ∧ ∀ e ∈ events, e.isOutcome = false
  pages : ∀ w, s.page? w = r.page? w

variable {r s : Relay} {me n c : Nat} {p : Pool} {t t' : Task} {log log' : List Visit} {x : Sums}
  {offers : List (String × Bool)} {v : Visit} {w : Worker}

theorem visitsTo_cons (n : Nat) (v : Visit) (log : List Visit) :
    visitsTo n (v :: log) = if v.pool = n then v :: visitsTo n log else visitsTo n log := by
  simp only [visitsTo, List.filter_cons, beq_iff_eq]

theorem visitsTo_append (n : Nat) (newer older : List Visit) :
    visitsTo n (newer ++ older) = visitsTo n newer ++ visitsTo n older := List.filter_append ..

theorem visitsBy_cons (m : Nat) (v : Visit) (log : List Visit) :
    visitsBy m (v :: log) = if v.worker = m then v :: visitsBy m log else visitsBy m log := by
  simp only [visitsBy, List.filter_cons, beq_iff_eq]

theorem visitsBy_append (m : Nat) (newer older : List Visit) :
    visitsBy m (newer ++ older) = visitsBy m newer ++ visitsBy m older := List.filter_append ..

theorem visitsBy_visitsTo (m n : Nat) (log : List Visit) :
    visitsBy m (visitsTo n log) = visitsTo n (visitsBy m log) :=
  List.filter_comm ..

namespace Idle

theorem trans {u : Relay} (h : Idle r s) (hu : Idle s u) : Idle r u := by
  obtain ⟨events, hj, he⟩ := h.journal
  obtain ⟨events', hj', he'⟩ := hu.journal
  refine ⟨?_, ?_, ⟨events' ++ events, by rw [hj', hj, List.append_assoc], ?_⟩,
    fun w => (hu.pages w).trans (h.pages w)⟩
  · intro n p hp
    obtain ⟨q, hq, h₁, h₂, h₃, h₄⟩ := h.pools n p hp
    obtain ⟨q', hq', h₁', h₂', h₃', h₄'⟩ := hu.pools n q hq
    exact ⟨q', hq', h₁'.trans h₁, h₂'.trans h₂, h₃'.trans h₃, h₄'.trans h₄⟩
  · intro n q hn hq
    cases hs : s.pools.get? n with
    | none => exact hu.founded n q hs hq
    | some p =>
      obtain ⟨hsink, hc⟩ := h.founded n p hn hs
      obtain ⟨q', hq', -, hsink', -, hc'⟩ := hu.pools n p hs
      obtain rfl := Option.some.inj (hq.symm.trans hq')
      exact ⟨by rw [hsink', hsink], hc'.trans hc⟩
  · intro e hm
    exact (List.mem_append.mp hm).elim (he' e) (he e)

theorem of (events : List Event) (hp : s.pools = r.pools) (ht : s.tasks = r.tasks)
    (hj : s.journal = events ++ r.journal)
    (he : ∀ e ∈ events, e.isOutcome = false) : Idle r s where
  pools n p h := ⟨p, by rw [hp, h], rfl, rfl, rfl, rfl⟩
  founded n q h hq := by simp [hp, h] at hq
  journal := ⟨events, hj, he⟩
  pages w := by simp only [page?, ht]

theorem setTask (ht : r.tasks.get? me = some t) (h : t'.page? = t.page?) : Idle r (r.setTask me t') := by
  refine { of [] (s := r) rfl rfl rfl (by simp) with pages := fun w => ?_ }
  simp only [page?, Relay.setTask, Dict.get?_insert]
  split
  · rename_i hw
    rw [hw, ht, Option.bind_some, Option.bind_some, h]
  · rfl

theorem setChannel (r : Relay) (c : Nat) (ch : Channel) : Idle r (r.setChannel c ch) :=
  of [] rfl rfl rfl (by simp)

theorem quiet (h : Quiet r s) : Idle r s := by
  obtain ⟨events, hj, he⟩ := h.journal
  refine ⟨h.pools, fun n q hn hq => (h.founded n q hn hq).2, ⟨events, hj, ?_⟩, ?_⟩
  · intro e hm
    have := he e hm
    cases e <;> simp_all [Event.isWork, Event.isOutcome]
  · intro w
    have ht := h.tasks w
    simp only [page?]
    generalize s.tasks.get? w = u? at ht
    generalize r.tasks.get? w = t? at ht
    cases ht with
    | kept ha => cases ha <;> rfl
    | worker n c => rfl
    | plain t hw ho => cases t <;> simp_all [Task.isWorker, Task.page?]

theorem delivered {d : Delivery} (h : Delivered r me d s) : Idle r s := by
  cases h with
  | @enters c y ch hc ho => exact of [.entered c (some me) y] rfl rfl rfl (by simp [Event.isOutcome])
  | blocks hc ho => exact setChannel r _ _
  | withdraws hc => exact setChannel r _ _

theorem takes {y : Target} (hs : r.take? c (some me) = some (y, s)) : Idle r s := by
  obtain ⟨-, rfl⟩ := take?_eq hs
  refine of (.taken c (some me) y :: ((r.channel c).admitted.map fun b => .entered c (some b.1) b.2).reverse)
    rfl rfl rfl ?_
  intro e he
  rcases List.mem_cons.mp he with rfl | he
  · rfl
  · obtain ⟨b, -, rfl⟩ := List.mem_map.mp (List.mem_reverse.mp he)
    rfl

end Idle

/-! A worker that works -/

inductive Wrote (p : Pipeline) (n me : Nat) : List Visit → List Visit → Sums → List (String × Bool) → Prop
  | nothing (log : List Visit) : Wrote p n me log log 0 []
  | opens {v : Visit} (hn : v.pool = n) (hw : v.worker = me) (ha : v.answers = []) (log : List Visit) :
      Wrote p n me log (v :: log) (v.sums p) []
  | answers {newer older : List Visit} {v : Visit} {ms : List Metric} (hn : v.pool = n) (hw : v.worker = me)
      (ho : v.outcome = .ok ms) (hnew : visitsBy me newer = []) (a : Metric × Bool) :
      Wrote p n me (newer ++ v :: older) (newer ++ v.answer a :: older) (p.sums a) (p.offers [a])

namespace Wrote

variable {q : Pipeline} {m : Nat}

theorem sum (h : Wrote q n me log log' x offers) :
    ((visitsTo n log').map (·.sums q)).sum = ((visitsTo n log).map (·.sums q)).sum + x := by
  cases h with
  | nothing => exact (add_zero _).symm
  | opens hn hw ha =>
    rw [visitsTo_cons, if_pos hn, List.map_cons, List.sum_cons]
    exact add_comm _ _
  | @answers newer older v ms hn hw ho hnew a =>
    rw [visitsTo_append, visitsTo_append, visitsTo_cons, visitsTo_cons, Visit.answer_pool, if_pos hn, if_pos hn]
    simp only [List.map_append, List.map_cons, List.sum_append, List.sum_cons, Visit.sums_answer ho]
    ac_rfl

theorem shared (h : Wrote q n me log log' x offers) :
    ((visitsTo n log').flatMap (·.offers q)).Perm ((visitsTo n log).flatMap (·.offers q) ++ offers) := by
  cases h with
  | nothing => rw [List.append_nil]
  | opens hn hw ha =>
    rw [visitsTo_cons, if_pos hn, List.flatMap_cons, Visit.offers, ha, List.append_nil]
    exact .refl _
  | @answers newer older v ms hn hw ho hnew a =>
    rw [visitsTo_append, visitsTo_append, visitsTo_cons, visitsTo_cons, Visit.answer_pool, if_pos hn, if_pos hn]
    simp only [List.flatMap_append, List.flatMap_cons, Visit.offers_answer, List.append_assoc]
    exact (List.perm_append_comm.append_left _).append_left _

theorem ordered (h : Wrote q n me log log' x offers) (w : Nat) :
    (visitsBy w (visitsTo n log')).reverse.flatMap (·.offers q) =
      (visitsBy w (visitsTo n log)).reverse.flatMap (·.offers q) ++ if me = w then offers else [] := by
  cases h with
  | nothing => rw [ite_self, List.append_nil]
  | opens hn hw ha =>
    rw [ite_self, List.append_nil, visitsTo_cons, if_pos hn, visitsBy_cons]
    split
    · rw [List.reverse_cons, List.flatMap_append, List.flatMap_singleton, Visit.offers, ha]
      exact List.append_nil _
    · rfl
  | @answers newer older v ms hn hw ho hnew a =>
    have hnew : visitsBy me (visitsTo n newer) = [] := by rw [visitsBy_visitsTo, hnew]; rfl
    rw [visitsTo_append, visitsTo_append, visitsTo_cons, visitsTo_cons, Visit.answer_pool, if_pos hn, if_pos hn,
      visitsBy_append, visitsBy_append, visitsBy_cons, visitsBy_cons, Visit.answer_worker]
    by_cases hwm : me = w
    · subst hwm
      rw [if_pos hw, if_pos hw, if_pos rfl, hnew, List.nil_append, List.nil_append, List.reverse_cons,
        List.reverse_cons, List.flatMap_append, List.flatMap_append, List.flatMap_singleton,
        List.flatMap_singleton,
        Visit.offers_answer, List.append_assoc]
    · have hne : v.worker ≠ w := hw.trans_ne hwm
      rw [if_neg hne, if_neg hne, if_neg hwm, List.append_nil]

theorem others (h : Wrote q n me log log' x offers) (hm : m ≠ n) : visitsTo m log' = visitsTo m log := by
  cases h with
  | nothing => rfl
  | opens hn hw ha => rw [visitsTo_cons, if_neg (hn.trans_ne hm.symm)]
  | answers hn hw ho hnew a =>
    rw [visitsTo_append, visitsTo_append, visitsTo_cons, visitsTo_cons, Visit.answer_pool,
      if_neg (hn.trans_ne hm.symm), if_neg (hn.trans_ne hm.symm)]

theorem colleagues (h : Wrote q n me log log' x offers) (hm : m ≠ me) : visitsBy m log' = visitsBy m log := by
  cases h with
  | nothing => rfl
  | opens hn hw ha => rw [visitsBy_cons, if_neg (hw.trans_ne hm.symm)]
  | answers hn hw ho hnew a =>
    rw [visitsBy_append, visitsBy_append, visitsBy_cons, visitsBy_cons, Visit.answer_worker,
      if_neg (hw.trans_ne hm.symm), if_neg (hw.trans_ne hm.symm)]

theorem known (h : Wrote q n me log log' x offers) {u : Visit} (hu : u ∈ log') :
    (∃ v ∈ log, u.worker = v.worker ∧ u.pool = v.pool ∧ u.target = v.target ∧ u.outcome = v.outcome) ∨
      u.pool = n ∧ u.worker = me ∧ log' = u :: log := by
  cases h with
  | nothing => exact .inl ⟨u, hu, rfl, rfl, rfl, rfl⟩
  | opens hn hw ha =>
    rcases List.mem_cons.mp hu with rfl | hu
    · exact .inr ⟨hn, hw, rfl⟩
    · exact .inl ⟨u, hu, rfl, rfl, rfl, rfl⟩
  | @answers newer older v ms hn hw ho hnew a =>
    refine .inl ?_
    simp only [List.mem_append, List.mem_cons] at hu
    rcases hu with hu | rfl | hu
    · exact ⟨u, by simp [hu], rfl, rfl, rfl, rfl⟩
    · exact ⟨v, by simp, rfl, rfl, rfl, rfl⟩
    · exact ⟨u, by simp [hu], rfl, rfl, rfl, rfl⟩

end Wrote

theorem countersOf_count {a b : Collector.Status} (h : countersOf a = countersOf b) (x : Sums) :
    countersOf (a.count x) = countersOf (b.count x) := by
  simp only [countersOf, Counters.mk.injEq] at h
  obtain ⟨hs, he, hf, hc⟩ := h
  simp only [countersOf, Collector.Status.count, hs, he, hf, hc]

section Written

variable {sink : Nat} {done? : Option Target}
  (hj : s.journal = (done?.map (.handled me)).toList ++ ((offers.map (offeredBy sink me)).reverse ++ r.journal))

include hj

theorem told_written {α : Type} (f : Event → Option α) :
    s.told f = r.told f ++ (offers.filterMap fun o => f (offeredBy sink me o)) ++
      (done?.bind fun t => f (.handled me t)).toList := by
  rw [told, hj]
  cases done? with
  | none => simp [told, List.filterMap_append, List.filterMap_reverse, List.filterMap_map]
  | some t =>
    cases hf : f (.handled me t) <;>
      simp [told, hf, List.filterMap_append, List.filterMap_reverse, List.filterMap_map]

theorem offeredAt_written (i : Nat) : s.offeredAt i = r.offeredAt i ++ if sink = i then offers else [] := by
  have hdone : (done?.bind fun t => (Event.handled me t).offeredAt? i) = none := by cases done? <;> rfl
  rw [offeredAt, told_written hj, hdone, Option.toList_none, List.append_nil, offeredAt]
  congr 1
  split <;> simp_all [offeredBy, Event.offeredAt?]

theorem offeredTo_written (i w : Nat) :
    s.offeredTo i w = r.offeredTo i w ++ if sink = i ∧ me = w then offers else [] := by
  have hdone : (done?.bind fun t => (Event.handled me t).offeredTo? i w) = none := by cases done? <;> rfl
  rw [offeredTo, told_written hj, hdone, Option.toList_none, List.append_nil, offeredTo]
  congr 1
  split <;> simp_all [offeredBy, Event.offeredTo?]

theorem handledBy_written (w : Nat) : s.handledBy w = r.handledBy w ++ if me = w then done?.toList else [] := by
  have hoffers : (offers.filterMap fun o => (offeredBy sink me o).handledBy? w) = [] :=
    List.filterMap_eq_nil_iff.mpr fun _ _ => rfl
  rw [handledBy, told_written hj, hoffers, List.append_nil, handledBy]
  congr 1
  cases done? <;> split <;> simp_all [Event.handledBy?]

end Written

theorem Visit.FitsIn.of_mem (h : v ∈ log) : v.FitsIn log r := .inl ⟨v, h, rfl, rfl⟩

theorem Visit.MadeBefore.later {p : Pipeline} (h : v.MadeBefore p r) (hl : Later r s) : v.MadeBefore p s := by
  obtain ⟨u, c, hu, hur, ht, ho⟩ := h
  exact ⟨u, c, hu, hur.trans hl, ht, ho⟩

theorem outcome_none {e : Event} (h : e.isOutcome = false) (i w : Nat) :
    e.offeredAt? i = none ∧ e.offeredTo? i w = none ∧ e.handledBy? w = none := by
  cases e with
  | handled | offered => cases h
  | _ => exact ⟨rfl, rfl, rfl⟩

namespace Booked

theorem unvisited (h : Booked log r) (hn : r.pools.get? n = none) : visitsTo n log = [] := by
  apply List.filter_eq_nil_iff.mpr
  intro v hv hvn
  obtain ⟨p, hp, -⟩ := h.made v hv
  rw [beq_iff_eq.mp hvn, hn] at hp
  cases hp

theorem unoffered {i : Nat} (h : Booked log r) (hn : r.pools.get? (i + 1) = none) (w : Nat) :
    r.offeredAt i = [] ∧ r.offeredTo i w = [] := by
  have none (e : Event) (he : e ∈ r.journal) : e.offeredAt? i = none ∧ e.offeredTo? i w = none := by
    cases e with
    | offered sink w' text accepted =>
      have hne : sink ≠ i := by
        rintro rfl
        have := h.origins sink w' text accepted he
        rw [hn] at this
        cases this
      exact ⟨if_neg hne, if_neg fun hs => hne hs.1⟩
    | _ => exact ⟨rfl, rfl⟩
  constructor
  · rw [offeredAt, told, List.filterMap_eq_nil_iff.mpr fun e he => (none e he).1, List.reverse_nil]
  · rw [offeredTo, told, List.filterMap_eq_nil_iff.mpr fun e he => (none e he).2, List.reverse_nil]

theorem idle (h : Booked log r) (hi : Idle r s) (ho : Onward r s) : Booked log s := by
  obtain ⟨events, hj, he⟩ := hi.journal
  have hat (i : Nat) : s.offeredAt i = r.offeredAt i := told_same hj fun e hm => (outcome_none (he e hm) i 0).1
  have hto (i w : Nat) : s.offeredTo i w = r.offeredTo i w :=
    told_same hj fun e hm => (outcome_none (he e hm) i w).2.1
  have hby (w : Nat) : s.handledBy w = r.handledBy w := told_same hj fun e hm => (outcome_none (he e hm) 0 w).2.2
  have known {n : Nat} {q : Pool} (hq : s.pools.get? n = some q) :
      (∃ p, r.pools.get? n = some p ∧ SamePool p q) ∨
        r.pools.get? n = none ∧ q.sink + 1 = n ∧ countersOf q.status = ⟨0, 0, 0, 0⟩ := by
    cases hp : r.pools.get? n with
    | none => exact .inr ⟨rfl, hi.founded n q hp hq⟩
    | some p =>
      obtain ⟨q', hq', hs⟩ := hi.pools n p hp
      obtain rfl := Option.some.inj (hq.symm.trans hq')
      exact .inl ⟨p, rfl, hs⟩
  refine ⟨?_, ?_, ?_, ?_, ?_, ?_, ?_, fun v hv => ho.crews _ _ (h.crews v hv)⟩
  · intro n q hq
    rcases known hq with ⟨p, hp, -, hs, -⟩ | ⟨-, hs, -⟩
    · rw [hs, h.sinks n p hp]
    · exact hs
  · intro sink w text accepted hm
    rw [hj, List.mem_append] at hm
    have hold :=
      h.origins sink w text accepted (hm.resolve_left fun hm => absurd (he _ hm) (by simp [Event.isOutcome]))
    obtain ⟨p, hp⟩ := Option.isSome_iff_exists.mp hold
    obtain ⟨q, hq, -⟩ := hi.pools _ p hp
    rw [hq]
    rfl
  · intro n q hq
    rcases known hq with ⟨p, hp, hpipe, -, -, hc⟩ | ⟨hn, -, hc⟩
    · rw [hc, hpipe, h.counted n p hp]
    · rw [hc, h.unvisited hn]
      rfl
  · intro n q hq
    rcases known hq with ⟨p, hp, hpipe, hs, -, -⟩ | ⟨hn, hs, -⟩
    · rw [hat, hpipe, hs]
      exact h.shared n p hp
    · rw [hat, h.unvisited hn, (h.unoffered (hs ▸ hn) 0).1]
      rfl
  · intro n q w hq
    rcases known hq with ⟨p, hp, hpipe, hs, -, -⟩ | ⟨hn, hs, -⟩
    · rw [hto, hpipe, hs]
      exact h.ordered n p w hp
    · rw [hto, h.unvisited hn, (h.unoffered (hs ▸ hn) w).2]
      rfl
  · intro w
    rw [hby, hi.pages]
    exact h.desks w
  · intro v hv
    obtain ⟨p, hp, hm⟩ := h.made v hv
    obtain ⟨q, hq, hpipe, -⟩ := hi.pools _ p hp
    exact ⟨q, hq, hpipe ▸ hm.later ho.later⟩

theorem apart {m : Nat} {q : Pool} (h : Booked log r) (hp : r.pools.get? n = some p) (hm : m ≠ n)
    (hq : r.pools.get? m = some q) : p.sink ≠ q.sink := by
  have := h.sinks m q hq
  have := h.sinks n p hp
  omega

section Writes

variable {done? : Option Target} (h : Booked log r) (hp : r.pools.get? n = some p)
  (hpools : s.pools = r.pools.insert n (p.count x))
  (hj : s.journal = (done?.map (.handled me)).toList ++ ((offers.map (offeredBy p.sink me)).reverse ++ r.journal))

include hp hpools

omit h in
theorem pool_kept {m : Nat} {q : Pool} (hq : r.pools.get? m = some q) :
    ∃ q', s.pools.get? m = some q' ∧ q'.pipeline = q.pipeline := by
  rw [hpools, Dict.get?_insert]
  split
  · rename_i hm
    rw [hm, hp] at hq
    rw [← Option.some.inj hq]
    exact ⟨_, rfl, rfl⟩
  · exact ⟨q, hq, rfl⟩

include h hj

theorem origins_written {sink w : Nat} {text : String} {accepted : Bool}
    (hm : .offered sink w text accepted ∈ s.journal) : (s.pools.get? (sink + 1)).isSome = true := by
  have hpool : (r.pools.get? (sink + 1)).isSome = true := by
    rw [hj, List.mem_append, List.mem_append] at hm
    rcases hm with hm | hm | hm
    · cases done? <;> simp at hm
    · obtain ⟨o, -, ho⟩ := List.mem_map.mp (List.mem_reverse.mp hm)
      obtain ⟨hs, -⟩ := Event.offered.inj ho
      rw [← hs, h.sinks n p hp, hp]
      rfl
    · exact h.origins sink w text accepted hm
  obtain ⟨q, hq⟩ := Option.isSome_iff_exists.mp hpool
  obtain ⟨q', hq', -⟩ := pool_kept hp hpools hq
  rw [hq']
  rfl

theorem writes (hw : Wrote p.pipeline n me log log' x offers) (hpages : ∀ w, me ≠ w → s.page? w = r.page? w)
    (hdesk : Desk (r.handledBy me ++ done?.toList) (visitsBy me log') (s.page? me)) (ho : Onward r s)
    (hmade : ∀ v, log' = v :: log → v.MadeBefore p.pipeline s) (hme : OnCrew s me n) : Booked log' s := by
  have known {m : Nat} {q : Pool} (hq : s.pools.get? m = some q) :
      m = n ∧ q = p.count x ∨ m ≠ n ∧ r.pools.get? m = some q := Dict.of_get?_insert (hpools ▸ hq)
  refine ⟨?_, fun _ _ _ _ hm => h.origins_written hp hpools hj hm, ?_, ?_, ?_, ?_, ?_, ?_⟩
  · intro m q hq
    rcases known hq with ⟨rfl, rfl⟩ | ⟨-, hq⟩
    · exact h.sinks m p hp
    · exact h.sinks m q hq
  · intro m q hq
    rcases known hq with ⟨rfl, rfl⟩ | ⟨hm, hq⟩
    · rw [Pool.count_pipeline, hw.sum, ← Collector.Status.count_add]
      exact countersOf_count (h.counted m p hp) x
    · rw [hw.others hm, h.counted m q hq]
  · intro m q hq
    rcases known hq with ⟨rfl, rfl⟩ | ⟨hm, hq⟩
    · rw [Pool.count_pipeline, Pool.count_sink, offeredAt_written hj, if_pos rfl]
      exact ((h.shared m p hp).append_right offers).trans hw.shared.symm
    · rw [hw.others hm, offeredAt_written hj, if_neg (h.apart hp hm hq), List.append_nil]
      exact h.shared m q hq
  · intro m q w hq
    rcases known hq with ⟨rfl, rfl⟩ | ⟨hm, hq⟩
    · rw [Pool.count_pipeline, Pool.count_sink, offeredTo_written hj, hw.ordered, h.ordered m p w hp]
      simp only [true_and]
    · rw [hw.others hm, offeredTo_written hj, if_neg fun hs => h.apart hp hm hq hs.1, List.append_nil]
      exact h.ordered m q w hq
  · intro w
    rw [handledBy_written hj]
    split
    · rename_i hwm
      exact hwm ▸ hdesk
    · rename_i hwm
      rw [List.append_nil, hw.colleagues (Ne.symm hwm), hpages w hwm]
      exact h.desks w
  · intro v hv
    rcases hw.known hv with ⟨u, hu, h₁, h₂, h₃, h₄⟩ | ⟨hvn, -, hlog⟩
    · obtain ⟨q, hq, hm⟩ := h.made u hu
      obtain ⟨q', hq', hpipe⟩ := pool_kept hp hpools hq
      refine ⟨q', h₂ ▸ hq', ?_⟩
      rw [Visit.MadeBefore, h₁, h₂, h₃, h₄, hpipe]
      exact hm.later ho.later
    · refine ⟨p.count x, ?_, hmade v hlog⟩
      rw [hpools, hvn]
      simp
  · intro v hv
    rcases hw.known hv with ⟨u, hu, h₁, h₂, -, -⟩ | ⟨hvn, hvw, -⟩
    · rw [h₁, h₂]
      exact ho.crews _ _ (h.crews u hu)
    · rw [hvn, hvw]
      exact hme

end Writes

theorem cleared (h : Booked log r) (ht : r.page? me = none) :
    (∀ v ∈ visitsBy me log, v.IsDone) ∧ r.handledBy me = ((visitsBy me log).map (·.target)).reverse := by
  have hdesk := h.desks me
  rw [ht] at hdesk
  exact hdesk.of_cleared

theorem pools_zero (hp : r.pools.get? n = some p) : r.pools = r.pools.insert n (p.count 0) := by
  rw [Pool.count_zero, Dict.insert_self hp]

theorem busy {y : Target} {rest : List Metric} (h : Booked log r) (ht : r.page? me = some (n, y, rest)) :
    ∃ v older, visitsBy me log = v :: older ∧ v.pool = n ∧ v.target = y ∧
      v.outcome = .ok (v.answers.map (·.1) ++ rest) ∧ (∀ u ∈ older, u.IsDone) ∧
      r.handledBy me = (older.map (·.target)).reverse := by
  have hdesk := h.desks me
  rw [ht] at hdesk
  exact hdesk.of_busy

section Works

variable {y : Target} {w : Worker} (h : Booked log r) (hp : r.pools.get? n = some p)
  (ht : r.tasks.get? me = some (.worker n c w)) (hts : s.tasks = r.tasks) (hon : Onward r (s.setTask me t'))

include h ht hts hon

theorem rests (hs : Idle r s) (ht' : t'.page? = (Task.worker n c w).page?) : Booked log (s.setTask me t') :=
  h.idle (hs.trans (.setTask (hts ▸ ht) ht')) hon

include hp

theorem wrote (done? : Option Target) (hw : Wrote p.pipeline n me log log' x offers)
    (hpools : s.pools = r.pools.insert n (p.count x))
    (hj : s.journal = (done?.map (.handled me)).toList ++
      ((offers.map (offeredBy p.sink me)).reverse ++ r.journal))
    (hdesk : Desk (r.handledBy me ++ done?.toList) (visitsBy me log') t'.page?)
    (hmade : ∀ v, log' = v :: log → v.MadeBefore p.pipeline (s.setTask me t')) :
    Booked log' (s.setTask me t') := by
  have hme : OnCrew (s.setTask me t') me n := hon.crews me n ⟨_, ht, .inl ⟨c, w, rfl⟩⟩
  have hpage : (s.setTask me t').page? me = t'.page? := by simp [page?, setTask]
  refine h.writes hp hpools hj hw ?_ (hpage ▸ hdesk) hon hmade hme
  intro v hv
  simp [page?, setTask, hts, Ne.symm hv]

theorem begins (done? : Option Target) (hr : Reachable r) (hw : w = .holding y) (hv : v.worker = me ∧ v.pool = n)
    (hy : v.target = y ∧ v.answers = []) (ho : v.outcome = p.pipeline.scrape r.network r.now y)
    (hpools : s.pools = r.pools.insert n (p.count (v.sums p.pipeline)))
    (hj : s.journal = (done?.map (.handled me)).toList ++ r.journal)
    (hdesk : Desk (r.handledBy me ++ done?.toList) (v :: visitsBy me log) t'.page?) :
    Booked (v :: log) (s.setTask me t') := by
  have hw' : Wrote p.pipeline n me log (v :: log) (v.sums p.pipeline) [] := .opens hv.2 hv.1 hy.2 log
  refine h.wrote hp ht hts hon done? hw' hpools hj ?_ ?_
  · rw [visitsBy_cons, if_pos hv.1]
    exact hdesk
  · intro u hu
    obtain ⟨rfl, -⟩ := List.cons.inj hu
    obtain ⟨rfl, rfl⟩ := hv
    obtain ⟨rfl, -⟩ := hy
    exact ⟨r, c, hr, hon.later, hw ▸ ht, ho⟩

end Works

theorem scrapes {y : Target} {ms : List Metric} (h : Booked log r) (hr : Reachable r)
    (hp : r.pools.get? n = some p) (ht : r.tasks.get? me = some (.worker n c (.holding y)))
    (ho : p.pipeline.scrape r.network r.now y = .ok ms)
    (hon : Onward r (r.setTask me (.worker n c (.shipping y ms)))) :
    Booked (⟨me, n, y, .ok ms, []⟩ :: log) (r.setTask me (.worker n c (.shipping y ms))) := by
  obtain ⟨hd, hh⟩ := h.cleared (by rw [page?, ht]; rfl)
  refine h.begins hp ht rfl hon none hr rfl ⟨rfl, rfl⟩ ⟨rfl, rfl⟩ ho.symm (pools_zero hp) rfl ?_
  rw [hh, Option.toList_none, List.append_nil]
  exact .busy (v := ⟨me, n, y, .ok ms, []⟩) rfl hd

theorem misses {y : Target} {f : Failure} (h : Booked log r) (hr : Reachable r) (hp : r.pools.get? n = some p)
    (ht : r.tasks.get? me = some (.worker n c (.holding y))) (ho : p.pipeline.scrape r.network r.now y = .error f)
    (hs : s = (r.setStatus n p p.status.countError).record (.handled me y))
    (hon : Onward r (s.setTask me (.worker n c .idle))) :
    Booked (⟨me, n, y, .error f, []⟩ :: log) (s.setTask me (.worker n c .idle)) := by
  subst hs
  have hc : p.count ⟨0, 1, 0⟩ = { p with status := p.status.countError } := by
    rw [Pool.count, Collector.Status.count_error]
  obtain ⟨hd, hh⟩ := h.cleared (by rw [page?, ht]; rfl)
  refine h.begins hp ht rfl hon (some y) hr rfl ⟨rfl, rfl⟩ ⟨rfl, rfl⟩ ho.symm ?_ rfl ?_
  · exact congrArg (r.pools.insert n) hc.symm
  · rw [hh]
    exact .done (v := ⟨me, n, y, .error f, []⟩) rfl hd

theorem ships {y : Target} {m : Metric} {rest : List Metric} (h : Booked log r) (hp : r.pools.get? n = some p)
    (ht : r.tasks.get? me = some (.worker n c (.shipping y (m :: rest)))) (hs : s = r.ship me n p m)
    (hon : Onward r (s.setTask me (.worker n c (.shipping y rest)))) :
    ∃ log', Booked log' (s.setTask me (.worker n c (.shipping y rest))) ∧ ∀ v ∈ log', v.FitsIn log r := by
  let a := (m, r.takesNext p.sink)
  have hts : s.tasks = r.tasks := hs ▸ Numbered.ship_tasks r me n p m
  have hshipped : s = r.shipped me n p (p.pipeline.sums a) (p.pipeline.offers [a]) := hs.trans (ship_eq r me n p m)
  obtain ⟨v, older, hv, rfl, rfl, ho, hd, hh⟩ := h.busy (by rw [page?, ht]; rfl)
  -- the visit that the worker is at is its latest, though others may have begun theirs since
  obtain ⟨newer, rest', rfl, hnew, hvw, rfl⟩ := List.filter_eq_cons_iff.mp hv
  have hnew : visitsBy me newer = [] := List.filter_eq_nil_iff.mpr hnew
  have hvw := beq_iff_eq.mp hvw
  refine ⟨_, h.wrote hp ht hts hon none (.answers rfl hvw ho hnew a) ?_ ?_ ?_ ?_, ?_⟩
  · rw [hshipped]
    rfl
  · rw [hshipped]
    rfl
  · rw [hh, visitsBy_append, hnew, List.nil_append, visitsBy_cons, Visit.answer_worker, if_pos hvw,
      Option.toList_none, List.append_nil]
    refine .busy (v := v.answer a) ?_ hd
    simp [Visit.answer, ho, a]
  · intro u hu
    simpa using congrArg List.length hu
  · intro u hu
    simp only [List.mem_append, List.mem_cons] at hu
    rcases hu with hu | rfl | hu
    · exact .of_mem (by simp [hu])
    · exact .inl ⟨v, by simp, rfl, rfl⟩
    · exact .of_mem (by simp [hu])

theorem ends {y : Target} (h : Booked log r) (hp : r.pools.get? n = some p)
    (ht : r.tasks.get? me = some (.worker n c (.shipping y [])))
    (hon : Onward r ((r.record (.handled me y)).setTask me (.worker n c .idle))) :
    Booked log ((r.record (.handled me y)).setTask me (.worker n c .idle)) := by
  obtain ⟨v, older, hv, -, rfl, ho, hd, hh⟩ := h.busy (by rw [page?, ht]; rfl)
  refine h.wrote hp ht rfl hon (some v.target) (.nothing log) (pools_zero hp) rfl ?_ ?_
  · have hdone : v.IsDone := by rw [Visit.IsDone, Visit.metrics, ho, List.append_nil]
    rw [hh, hv]
    exact .done hdone hd
  · intro u hu
    simpa using congrArg List.length hu

theorem works {w : Worker} (h : Booked log r) (hr : Reachable r) (hp : r.pools.get? n = some p)
    (ht : r.tasks.get? me = some (.worker n c w)) (hw : Worked r me n c p w s t')
    (hon : Onward r (s.setTask me t')) :
    ∃ log', Booked log' (s.setTask me t') ∧ ∀ v ∈ log', v.FitsIn log r := by
  have rests := fun hs ht' => h.rests ht (Numbered.worked_tasks hw) hon hs ht'
  have same : ∀ v ∈ log, v.FitsIn log r := fun v hv => .of_mem hv
  have mine {v : Visit} (hv : v.worker = me ∧ v.pool = n) : ∀ u ∈ v :: log, u.FitsIn log r := by
    refine List.forall_mem_cons.mpr ⟨.inr ⟨c, w, ?_⟩, same⟩
    rw [hv.1, hv.2, ht]
  have empty (hw : w.inHand? = none) : (Task.worker n c w).page? = none := page?_empty hw
  cases hw with
  | takes hw inLine hs =>
    refine ⟨log, rests ?_ (empty hw).symm, same⟩
    cases inLine
    · exact .takes hs
    · exact (Idle.takes hs).trans (.setChannel ..)
  | waits hw hs =>
    refine ⟨log, rests ?_ (empty hw).symm, same⟩
    split
    · exact .of [] rfl rfl rfl (by simp)
    · exact .setChannel ..
  | leaves hw inLine hs =>
    refine ⟨log, rests ?_ (empty hw).symm, same⟩
    cases inLine
    · exact .of [] rfl rfl rfl (by simp)
    · exact .setChannel ..
  | scrapes ho => exact ⟨_, h.scrapes hr hp ht ho hon, mine ⟨rfl, rfl⟩⟩
  | misses ho => exact ⟨_, h.misses hr hp ht ho rfl hon, mine ⟨rfl, rfl⟩⟩
  | ships => exact h.ships hp ht rfl hon
  | ends => exact ⟨log, h.ends hp ht hon, same⟩

end Booked

/-! All moves -/

theorem OnCrew.move {m : Move} {w : Nat} (h : OnCrew r w n) (hn : Numbered r) (hm : r.move m = some s) :
    OnCrew s w n := by
  obtain ⟨t, ht, hp⟩ := h
  by_cases htu : m = .turn w
  · subst htu
    obtain ⟨u, u', s', hu, he, hd, rfl⟩ := step_did hn hm
    obtain rfl := Option.some.inj (ht.symm.trans hu)
    obtain ⟨c, x, rfl⟩ := hp.resolve_right (by simp [he])
    refine ⟨u', by simp [setTask], ?_⟩
    cases hd with
    | nothing hq hts hw => simp [Task.isWorker] at hw
    | delivered d hd hs hw => simp [Task.isWorker] at hw
    | worked n' c' x' p ht' hp hd =>
      obtain ⟨rfl, rfl, rfl⟩ := Task.worker.inj ht'
      cases hd with
      | leaves => exact .inr rfl
      | _ => exact .inl ⟨_, _, rfl⟩
  · refine ⟨t, task_kept hn hm ht htu ?_, hp⟩
    rintro n' aborted next stage rfl
    simp [Task.isEnded] at hp

theorem Booked.move {m : Move} (h : Booked log r) (hr : Reachable r) (hm : r.move m = some s) :
    ∃ log', Booked log' s ∧ ∀ v ∈ log', v.FitsIn log r := by
  have same : ∀ v ∈ log, v.FitsIn log r := fun v hv => .of_mem hv
  have hn := hr.numbered
  have hon : Onward r s := ⟨.after m .same hm, fun _ _ h => h.move hn hm⟩
  by_cases htu : ∃ me, m = .turn me
  · obtain ⟨me, rfl⟩ := htu
    obtain ⟨t, t', s', ht, -, hd, rfl⟩ := step_did hn hm
    cases hd with
    | nothing hq hts hw hw' =>
      refine ⟨log, h.idle ((Idle.quiet hq).trans (.setTask hts ?_)) hon, same⟩
      rw [page?_plain hw, page?_plain hw']
    | delivered d _ hs hw hw' =>
      refine ⟨log, h.idle ((Idle.delivered hs).trans (.setTask (delivered_tasks hs ▸ ht) ?_)) hon, same⟩
      rw [page?_plain hw, page?_plain hw']
    | worked n c w p hw hp hd =>
      subst hw
      exact h.works hr hp ht hd hon
  · exact ⟨log, h.idle (.quiet (move_quiet hn hm fun me he => htu ⟨me, he⟩)) hon, same⟩

theorem Booked.start (inventory : Cluster.Inventory) (network : Network) (every : Option Nat) :
    Booked [] (start inventory network every) := by
  have none {n : Nat} {p : Pool} (hp : (Relay.start inventory network every).pools.get? n = some p) : False := by
    simp [Relay.start] at hp
  have hdesk : Desk (([] : List Visit).map (·.target)).reverse [] .none := .cleared (by simp)
  refine ⟨fun n p hp => (none hp).elim, ?_, fun n p hp => (none hp).elim, fun n p hp => (none hp).elim,
    fun n p w hp => (none hp).elim, fun w => hdesk, by simp, by simp⟩
  intro sink w text accepted hm
  simp [Relay.start] at hm

theorem Reachable.booked (h : Reachable r) : ∃ log, Booked log r := by
  refine h.holds (P := fun r => ∃ log, Booked log r) ?_ ?_
  · intro inventory network every
    exact ⟨[], .start inventory network every⟩
  · intro r m s hr hb hm
    obtain ⟨log, h⟩ := hb
    obtain ⟨log', h', -⟩ := h.move hr hm
    exact ⟨log', h'⟩

def Resting (r : Relay) (n : Nat) : Prop := ∀ w c x, r.tasks.get? w = some (.worker n c x) → x.inHand? = none

theorem page?_inHand {w : Nat} (h : r.inHand w = []) : r.page? w = none := by
  rw [page?]
  cases ht : r.tasks.get? w with
  | none => rfl
  | some t =>
    rw [inHand_eq ht, Option.toList_eq_nil_iff] at h
    exact page?_empty h

theorem Booked.done (h : Booked log r) (hrest : Resting r n) (hv : v ∈ visitsTo n log) : v.IsDone := by
  obtain ⟨hlog, hn⟩ := List.mem_filter.mp hv
  obtain rfl := beq_iff_eq.mp hn
  refine (h.cleared (page?_inHand ?_)).1 v (List.mem_filter.mpr ⟨hlog, beq_self_eq_true _⟩)
  obtain ⟨t, ht, ⟨c, x, rfl⟩ | he⟩ := h.crews v hlog
  · rw [inHand_eq ht, Task.inHand?, hrest v.worker c x ht, Option.toList_none]
  · rw [inHand_eq ht]
    cases t <;> simp_all [Task.isEnded, Task.inHand?]

theorem sent_accepted {q : Pipeline} {visits : List Visit}
    (h : ∀ v ∈ visits, (v.sums q).sent = (v.offers q).countP (·.2)) :
    (visits.map (Visit.sums q)).sum.sent = (visits.flatMap (·.offers q)).countP (·.2) := by
  induction visits with
  | nil => rfl
  | cons v rest ih =>
    rw [List.map_cons, List.sum_cons, Collector.Sums.sent_add, h v List.mem_cons_self,
      ih fun u hu => h u (List.mem_cons_of_mem v hu), List.flatMap_cons, List.countP_append]

theorem Booked.sent (h : Booked log r) (hp : r.pools.get? n = some p) (hd : ∀ v ∈ visitsTo n log, v.IsDone) :
    p.status.collected = p.status.sent ∧ p.status.sent = .ofNat ((r.offeredAt p.sink).countP (·.2)) := by
  have hc := h.counted n p hp
  simp only [countersOf, Counters.mk.injEq] at hc
  obtain ⟨hsent, -, -, hcollected⟩ := hc
  refine ⟨hcollected.trans hsent.symm, hsent.trans ?_⟩
  rw [(h.shared n p hp).countP_eq, ← sent_accepted fun v hv => ((hd v hv).accounts p.pipeline).sent]
  exact UInt64.zero_add _

/-- What a worker makes of a target is counted and offered as the target comes to it, whatever the sink says; and
however the workers of a pool take turns, when they rest, the pool counted what its targets come to together. -/
theorem accounting :
    (∀ (r : Relay) (me n c : Nat) (p : Pool) (t : Target),
      r.tasks.get? me = some (.worker n c (.holding t)) → r.pools.get? n = some p →
        ∃ k x offers, p.pipeline.Accounts (p.pipeline.scrape r.network r.now t) x offers ∧
          offers.map (·.2) = (List.range' (r.outlet p.sink).offered offers.length).map
            (r.outlet p.sink).accepts ∧
          r.replay (List.replicate k (.turn me)) = some (r.processed me n c p t x offers)) ∧
    ∀ r, Reachable r → ∃ visits,
      (∀ w, r.inHand w = [] → r.receivedBy w = (visitsBy w visits).map (·.target)) ∧
      ∀ n p, r.pools.get? n = some p → Resting r n →
        (∀ v ∈ visitsTo n visits, v.MadeBefore p.pipeline r ∧
          p.pipeline.Accounts v.outcome (v.sums p.pipeline) (v.offers p.pipeline)) ∧
        (∀ w, r.offeredTo p.sink w = (visitsBy w (visitsTo n visits)).flatMap (·.offers p.pipeline)) ∧
        (r.offeredAt p.sink).Perm ((visitsTo n visits).flatMap (·.offers p.pipeline)) ∧
        countersOf p.status = countersOf (.count .zero ((visitsTo n visits).map (·.sums p.pipeline)).sum) ∧
        p.status.collected = p.status.sent ∧ p.status.sent = .ofNat ((r.offeredAt p.sink).countP (·.2)) := by
  refine ⟨fun r me n c p t ht hp => process_alone ht hp, fun r hr => ?_⟩
  obtain ⟨log, h⟩ := hr.booked
  have hby (w : Nat) (l : List Visit) : visitsBy w l.reverse = (visitsBy w l).reverse := List.filter_reverse ..
  have hto (n : Nat) : visitsTo n log.reverse = (visitsTo n log).reverse := List.filter_reverse ..
  refine ⟨log.reverse, ?_, ?_⟩
  · intro w hw
    rw [hr.handedOff.accounted, hw, List.append_nil, (h.cleared (page?_inHand hw)).2, hby, List.map_reverse]
  · intro n p hp hrest
    have hd (v : Visit) (hv : v ∈ visitsTo n log) : v.IsDone := h.done hrest hv
    refine ⟨?_, ?_, ?_, ?_, h.sent hp hd⟩
    · intro v hv
      rw [hto, List.mem_reverse] at hv
      obtain ⟨hlog, hn⟩ := List.mem_filter.mp hv
      obtain ⟨q, hq, hm⟩ := h.made v hlog
      obtain rfl : q = p := by
        rw [beq_iff_eq.mp hn, hp] at hq
        exact (Option.some.inj hq).symm
      exact ⟨hm, (hd v hv).accounts q.pipeline⟩
    · intro w
      rw [hto, hby, h.ordered n p w hp]
    · rw [hto]
      exact (h.shared n p hp).trans ((List.reverse_perm _).symm.flatMap_right _)
    · rw [hto, List.map_reverse, List.sum_reverse, h.counted n p hp]

def pair : Network := fun _ => some ⟨200, "up 1\ndown 2\n".toUTF8.toList, true⟩

def pairTarget : Target := { Target.ofAnnotations .empty "" with ip := "10.0.0.1" }

def halving : List Move :=
  let k : Key := ⟨"monitoring", "pool"⟩
  [.addPool k .standard 1 (fun i => i == 1) none, .call (.send k [pairTarget] none), .turn 4, .turn 4,
    .turn 3, .turn 3, .turn 3, .turn 3, .turn 3]

def pairPool : Pool := ⟨⟨"monitoring", "pool"⟩, .ofSpec .standard, 1, 0, none, .zero, false, [], none⟩

def pairHeld : Relay :=
  { start .empty pair none with
    pools := Dict.empty.insert 1 pairPool
    tasks := Dict.empty.insert 3 (.worker 1 2 (.holding pairTarget)) }

theorem accounting_halving :
    (∃ k x offers, pairPool.pipeline.Accounts
      (pairPool.pipeline.scrape pair pairHeld.now pairTarget) x offers ∧
      pairHeld.replay (List.replicate k (.turn 3)) =
        some (pairHeld.processed 3 1 2 pairPool pairTarget x offers)) ∧
    ∃ r p, (start .empty pair none).replay halving = some r ∧ r.pools.get? 1 = some p ∧
    r.receivedBy 3 = [pairTarget] ∧
      (r.offeredAt p.sink).map (·.2) = [false, true] ∧ p.status.collected = p.status.sent ∧
      p.status.sent = 1 := by
  obtain ⟨alone, together⟩ := accounting
  constructor
  · obtain ⟨k, x, offers, haccounts, -, hreplay⟩ :=
      alone pairHeld 3 1 2 pairPool pairTarget (by simp [pairHeld]) (by simp [pairHeld])
    exact ⟨k, x, offers, haccounts, hreplay⟩
  · have facts : ((start .empty pair none).replay halving).map
        (fun r => ((r.pools.get? 1).map (·.sink), r.receivedBy 3,
        (r.offeredAt 0).map (·.2), r.tasks.values.all (·.inHand?.isNone))) =
          some (some 0, [pairTarget], [false, true], true) := by
      decide +kernel
    obtain ⟨r, hr, he⟩ := Option.map_eq_some_iff.mp facts
    simp only [Prod.mk.injEq] at he
    obtain ⟨hp, htaken, hoffered, hrest⟩ := he
    obtain ⟨p, hp, hsink⟩ := Option.map_eq_some_iff.mp hp
    have hresting : Resting r 1 := by
      intro w c x hw
      have := List.all_eq_true.mp hrest _ (Dict.mem_values.mpr ⟨w, hw⟩)
      simpa [Task.inHand?] using this
    obtain ⟨visits, -, hpools⟩ := together r ⟨.empty, pair, none, replay_later hr⟩
    obtain ⟨-, -, -, -, hcollected, hsent⟩ := hpools 1 p hp hresting
    refine ⟨r, p, hr, hp, htaken, hsink ▸ hoffered, hcollected, ?_⟩
    have hcount : (r.offeredAt 0).countP (·.2) = ((r.offeredAt 0).map (·.2)).countP id := by
      rw [List.countP_map]
      rfl
    rw [hsent, hsink, hcount, hoffered]
    rfl

end ScrapeRelay.Relay

import ScrapeRelay.Proofs.Collector.Tally
import ScrapeRelay.Proofs.Relay.Installs

/-!
What a worker does with one target, if it is left alone with it. A failed scrape is one error and nothing else;
the metrics of a page are counted one by one, and what the sink says to the payload of one changes nothing for
the others.
-/

namespace ScrapeRelay.Relay

open Collector (Pipeline Sums)

def Outlet.past (o : Outlet) (k : Nat) : Outlet := { o with offered := o.offered + k }

def Outlet.answers (p : Pipeline) (o : Outlet) : List Metric → List (Metric × Bool)
  | [] => []
  | m :: rest => (m, o.accepts o.offered) :: answers p (o.past (p.payloads [m]).length) rest

def outletsAfter (r : Relay) (sink k : Nat) : Dict Nat Outlet :=
  if k = 0 then r.outlets else r.outlets.insert sink ((r.outlet sink).past k)

def offeredBy (sink me : Nat) (o : String × Bool) : Event := .offered sink me o.1 o.2

def Pool.count (p : Pool) (x : Sums) : Pool := { p with status := p.status.count x }

def shipped (r : Relay) (me n : Nat) (p : Pool) (x : Sums) (offers : List (String × Bool)) : Relay :=
  { r with
    pools := r.pools.insert n (p.count x)
    outlets := r.outletsAfter p.sink offers.length
    journal := (offers.map (offeredBy p.sink me)).reverse ++ r.journal }

def processed (r : Relay) (me n c : Nat) (p : Pool) (t : Target) (x : Sums) (offers : List (String × Bool)) :
    Relay :=
  ((r.shipped me n p x offers).record (.handled me t)).setTask me (.worker n c .idle)

variable {r s : Relay} {me n c : Nat} {p : Pool} {t : Target} {m : Metric} {ms : List Metric} {o : Outlet}

@[simp] theorem Pool.count_pipeline (p : Pool) (x : Sums) : (p.count x).pipeline = p.pipeline := rfl
@[simp] theorem Pool.count_sink (p : Pool) (x : Sums) : (p.count x).sink = p.sink := rfl

theorem Pool.count_zero (p : Pool) : p.count 0 = p := by rw [count, Collector.Status.count_zero]

theorem Pool.count_count (p : Pool) (x y : Sums) : (p.count x).count y = p.count (x + y) := by
  simp only [count, Collector.Status.count_add]

theorem Outlet.past_past (o : Outlet) (k l : Nat) : (o.past k).past l = o.past (k + l) := by
  simp only [past, Nat.add_assoc]

theorem Outlet.answers_metrics (o : Outlet) (ms : List Metric) (q : Pipeline) :
    (o.answers q ms).map (·.1) = ms := by
  induction ms generalizing o with
  | nil => rfl
  | cons m rest ih => rw [answers, List.map_cons, ih]

theorem outlet_after (r : Relay) (sink k : Nat) :
    (r.outletsAfter sink k).getD sink ⟨fun _ => true, 0⟩ = (r.outlet sink).past k := by
  rw [outletsAfter]
  split
  · rename_i hk
    rw [hk]
    rfl
  · simp [Dict.getD]

theorem shipped_outlet (r : Relay) (me n : Nat) (p : Pool) (x : Sums) (offers : List (String × Bool)) :
    (r.shipped me n p x offers).outlet p.sink = (r.outlet p.sink).past offers.length := outlet_after r p.sink _

theorem shipped_outletsAfter (r : Relay) (me n : Nat) (p : Pool) (x : Sums)
    (offers : List (String × Bool)) (k : Nat) :
    (r.shipped me n p x offers).outletsAfter p.sink k = r.outletsAfter p.sink (offers.length + k) := by
  rw [outletsAfter]
  rw [shipped_outlet, Outlet.past_past]
  by_cases hk : k = 0
  · simp [hk, shipped, outletsAfter]
  · by_cases ho : offers.length = 0
    · simp [hk, ho, shipped, outletsAfter]
    · simp [hk, ho, shipped, outletsAfter, Dict.insert_insert]

theorem shipped_shipped (r : Relay) (me n : Nat) (p : Pool) (x y : Sums) (offers more : List (String × Bool)) :
    (r.shipped me n p x offers).shipped me n (p.count x) y more = r.shipped me n p (x + y) (offers ++ more) := by
  have ho := shipped_outletsAfter r me n p x offers more.length
  simp only [shipped, Pool.count_sink, Pool.count_count] at ho ⊢
  rw [ho]
  simp only [Dict.insert_insert, List.length_append, List.map_append, List.reverse_append, List.append_assoc]

theorem shipped_nothing (hp : r.pools.get? n = some p) : r.shipped me n p 0 [] = r := by
  simp only [shipped, Pool.count_zero, Dict.insert_self hp, outletsAfter, List.length_nil, if_true, List.map_nil,
    List.reverse_nil, List.nil_append]

theorem ship_eq (r : Relay) (me n : Nat) (p : Pool) (m : Metric) :
    r.ship me n p m = r.shipped me n p (p.pipeline.sums (m, r.takesNext p.sink))
      (p.pipeline.offers [(m, r.takesNext p.sink)]) := by
  cases hf : p.pipeline.fate m with
  | filtered name =>
    simp [ship, hf, shipped, Pool.count, outletsAfter, Pipeline.sums, Pipeline.offers, Pipeline.offer?, setStatus,
      setPool, Collector.Status.countFiltered, Collector.Status.count]
  | refused problem =>
    simp [ship, hf, shipped, Pool.count, outletsAfter, Pipeline.sums, Pipeline.offers, Pipeline.offer?, setStatus,
      setPool, Collector.Status.countError, Collector.Status.count]
  | payload text =>
    rw [ship_payload hf]
    cases h : r.takesNext p.sink <;>
      simp [shipped, Pool.count, outletsAfter, Pipeline.sums, Pipeline.offers, Pipeline.offer?, hf,
        setStatus, setPool, Collector.Status.countSent, offeredBy, Collector.Status.countError,
        Collector.Status.count, record, countOffer,
        Outlet.past]

theorem offers_length (q : Pipeline) (answers : List (Metric × Bool)) :
    (q.offers answers).length = (q.payloads (answers.map (·.1))).length := by
  rw [← Pipeline.offers_payloads, List.length_map]

theorem Outlet.answers_offers (o : Outlet) (q : Pipeline) (ms : List Metric) :
    (q.offers (o.answers q ms)).map (·.2) = (List.range' o.offered (q.payloads ms).length).map o.accepts := by
  induction ms generalizing o with
  | nil => rfl
  | cons m rest ih =>
    have first : (q.offers [(m, o.accepts o.offered)]).map (·.2) =
        (List.range' o.offered (q.payloads [m]).length).map o.accepts := by
      simp only [Pipeline.offers, Pipeline.offer?, Pipeline.payloads, List.filterMap_cons, List.filterMap_nil]
      cases q.fate m <;> rfl
    rw [answers, ← List.singleton_append, Pipeline.offers_append, List.map_append, first, ih,
      Pipeline.payloads_cons m rest, List.length_append, ← List.range'_append_1, List.map_append]
    rfl

/-! Turns of a worker that is left alone -/

theorem step_shipping {rest : List Metric} (ht : r.tasks.get? me = some (.worker n c (.shipping t (m :: rest))))
    (hp : r.pools.get? n = some p) :
    r.step me = some ((r.ship me n p m).setTask me (.worker n c (.shipping t rest))) := by
  simp only [step, ht, Option.bind_some, turn, hp, work, Option.map_some]

theorem step_shipped (ht : r.tasks.get? me = some (.worker n c (.shipping t []))) (hp : r.pools.get? n = some p) :
    r.step me = some (r.processed me n c p t 0 []) := by
  simp only [step, ht, Option.bind_some, turn, hp, work, Option.map_some, processed, shipped_nothing hp]

theorem processed_shipped (r : Relay) (me n c : Nat) (p : Pool) (t : Target) (rest : List Metric) (x y : Sums)
    (offers more : List (String × Bool)) :
    ((r.shipped me n p x offers).setTask me (.worker n c (.shipping t rest))).processed me n c
      (p.count x) t y more = r.processed me n c p t (x + y) (offers ++ more) := by
  rw [processed, processed, ← shipped_shipped]
  simp only [setTask, shipped, record, Dict.insert_insert]
  rfl

theorem ships_all (ht : r.tasks.get? me = some (.worker n c (.shipping t ms))) (hp : r.pools.get? n = some p) :
    r.replay (List.replicate (ms.length + 1) (.turn me)) = some (r.processed me n c p t
      (p.pipeline.tally ((r.outlet p.sink).answers p.pipeline ms))
      (p.pipeline.offers ((r.outlet p.sink).answers p.pipeline ms))) := by
  induction ms generalizing r p with
  | nil =>
    simp only [List.length_nil, Nat.zero_add, List.replicate_one, replay, move, step_shipped ht hp]
    rfl
  | cons m rest ih =>
    let a := (m, r.takesNext p.sink)
    let s : Relay := (r.shipped me n p (p.pipeline.sums a) (p.pipeline.offers [a])).setTask me
      (.worker n c (.shipping t rest))
    have hs : s.outlet p.sink = (r.outlet p.sink).past (p.pipeline.payloads [m]).length := by
      have := shipped_outlet r me n p (p.pipeline.sums a) (p.pipeline.offers [a])
      rwa [offers_length] at this
    have hr :=
      ih (r := s) (p := p.count (p.pipeline.sums a)) (by simp [s, setTask]) (by simp [s, setTask, shipped])
    rw [List.length_cons, List.replicate_succ, replay, move, step_shipping ht hp, Option.bind_some, ship_eq, hr,
      processed_shipped, Pool.count_pipeline, Pool.count_sink, hs, Outlet.answers, Pipeline.tally_cons,
      ← Pipeline.offers_append]
    rfl

theorem process_alone (ht : r.tasks.get? me = some (.worker n c (.holding t))) (hp : r.pools.get? n = some p) :
    ∃ k x offers, p.pipeline.Accounts (p.pipeline.scrape r.network r.now t) x offers ∧
      offers.map (·.2) = (List.range' (r.outlet p.sink).offered offers.length).map (r.outlet p.sink).accepts ∧
      r.replay (List.replicate k (.turn me)) = some (r.processed me n c p t x offers) := by
  cases hs : p.pipeline.scrape r.network r.now t with
  | error f =>
    refine ⟨1, ⟨0, 1, 0⟩, [], .failure f, rfl, ?_⟩
    simp only [List.replicate_one, replay, move, step, ht, Option.bind_some, turn, hp, work, hs, Option.map_some]
    simp [processed, shipped, Pool.count, Collector.Status.count, outletsAfter, setStatus, setPool,
      Collector.Status.countError, record]
  | ok ms =>
    have hm := Outlet.answers_metrics (r.outlet p.sink) ms p.pipeline
    refine ⟨ms.length + 2, _, _, Pipeline.tally_accounts hm, ?_, ?_⟩
    · rw [Outlet.answers_offers, offers_length, hm]
    · have hfirst : r.step me = some (r.setTask me (.worker n c (.shipping t ms))) := by
        simp only [step, ht, Option.bind_some, turn, hp, work, hs, Option.map_some]
      have hme : (r.setTask me (.worker n c (.shipping t ms))).tasks.get? me =
          some (.worker n c (.shipping t ms)) := by
        simp [setTask]
      have hall := ships_all hme hp
      rw [List.replicate_succ, replay, move, hfirst, Option.bind_some, hall]
      simp only [processed, shipped, setTask, record, Dict.insert_insert]
      rfl

end ScrapeRelay.Relay

import Mathlib.Algebra.GroupWithZero.Nat
import ScrapeRelay.Proofs.Relay.Manned
import ScrapeRelay.Proofs.Relay.Scouts

/-!
One cycle of a discovery from its first turn to its last, while all other tasks take turns and others call and
install as they please. The cycle goes through the collectors that its discovery refers to, one errand for each.
What it brings, the channels it touches and the status it ends with are read off the errands.
-/

namespace ScrapeRelay.Relay

def isReady (r : Relay) (k : Key) : Bool :=
  match r.inventory.getCollector r.outage k with
  | .ok (some spec) => spec.enabled
  | _ => false

def sendLimit (r : Relay) (spec : Discovery.Spec) : Option Limit :=
  spec.sendTimeoutSeconds.map fun n => ⟨n * 1000, r.clock + n * 1000⟩

def depthUnder (r : Relay) (k : Key) : Nat := (r.inFlight k).toOption.getD 0

/-! Runs -/

/-- In a run a task takes a turn of a cycle; the relay is as the turn finds it. -/
def TurnAt (r : Relay) (ms : List Move) (me n : Nat) (u : Relay) (c : Cycle) : Prop :=
  ∃ before after, ms = before ++ .turn me :: after ∧ r.replay before = some u ∧ u.cycleOf me = some (n, c)

/-- A run in which a task is in one and the same cycle, from its beginning on. -/
inductive Cycling (r : Relay) (me n : Nat) : List Move → Relay → Cycle → Prop
  | begins (h : r.cycleOf me = some (n, .asking)) : Cycling r me n [] r .asking
  | goesOn {ms : List Move} {m : Move} {s t : Relay} {c c' : Cycle} (h : Cycling r me n ms s c)
      (hm : s.move m = some t) (hc : t.cycleOf me = some (n, c')) : Cycling r me n (ms ++ [m]) t c'

/-- A run in which a task makes one whole cycle for a discovery and comes to a status with its last turn. -/
inductive Cycled (r : Relay) (me n : Nat) : List Move → Discovery.Status → Relay → Prop
  | mk {ms : List Move} {s t u : Relay} {c : Cycle} {sc : Scout} {status : Discovery.Status}
      (h : Cycling r me n ms s c) (hs : s.scouts.get? n = some sc)
      (hc : s.cycle me n sc c = some (u, .over status)) (hm : s.step me = some t) :
      Cycled r me n (ms ++ [.turn me]) status t

/-! Errands -/

/-- What a cycle does about a collector that its discovery refers to. One that is not ready is skipped; to any
other it makes a delivery, and then it looks how much is in the channel. -/
inductive Errand
  | skipped (key : Key)
  | made (key : Key) (outcome : Delivery.Outcome) (depth : Nat)

namespace Errand

def key : Errand → Key
  | skipped k | made k _ _ => k

def isReady : Errand → Bool
  | skipped _ => false
  | made .. => true

def channel? : Errand → Option Nat
  | skipped _ => none
  | made _ o _ => o.channel?

def depth : Errand → Nat
  | skipped _ => 0
  | made _ _ depth => depth

def brings (batch : List Target) : Errand → List (Nat × Target)
  | skipped _ => []
  | made _ o _ => o.brings batch

end Errand

def channelsOf (es : List Errand) : List Nat := es.filterMap (·.channel?)

def tallyOf (es : List Errand) : Tally := ⟨es.countP (·.isReady), (es.map (·.depth)).sum⟩

/-- In a run a cycle finds a collector ready, before so many others that are still to come, and makes a delivery
of the batch that ends so. -/
def DeliversTo (r : Relay) (ms : List Move) (me n : Nat) (spec : Discovery.Spec) (batch : List Target)
    (rest : List Key) (k : Key) (o : Delivery.Outcome) : Prop :=
  ∃ u v w tally tally' d s result, TurnAt r ms me n u (.choosing batch (k :: rest) tally) ∧
  u.isReady k = true ∧
    TurnAt r ms me n v (.delivering batch (.start k batch (u.sendLimit spec)) rest tally') ∧
    v.registry.channels.get? k = o.channel? ∧
    TurnAt r ms me n w (.delivering batch d rest tally') ∧ d.key = k ∧ d.limit = u.sendLimit spec ∧
    w.deliver me d = some (s, .over result) ∧ Concludes w batch d result o

inductive Errand.Done (r : Relay) (ms : List Move) (me n : Nat) (spec : Discovery.Spec) (batch : List Target)
    (rest : List Key) : Errand → Prop
  | skipped {u : Relay} {k : Key} {tally : Tally} (hu : TurnAt r ms me n u (.choosing batch (k :: rest) tally))
      (hk : u.isReady k = false) : Done r ms me n spec batch rest (.skipped k)
  | made {u : Relay} {k : Key} {tally : Tally} {o : Delivery.Outcome}
      (ho : DeliversTo r ms me n spec batch rest k o) (hu : TurnAt r ms me n u (.measuring batch k rest tally)) :
      Done r ms me n spec batch rest (.made k o (u.depthUnder k))

/-- The errands of a run, in the order of the references; those to the last ones are still to come. -/
inductive Errands (r : Relay) (ms : List Move) (me n : Nat) (spec : Discovery.Spec) (batch : List Target)
    (collectors : List Key) : List Errand → List Key → Prop
  | none : Errands r ms me n spec batch collectors [] collectors
  | more {es : List Errand} {e : Errand} {rest : List Key}
      (h : Errands r ms me n spec batch collectors es (e.key :: rest))
      (he : e.Done r ms me n spec batch rest) : Errands r ms me n spec batch collectors (es ++ [e]) rest

variable {r s t u : Relay} {ms : List Move} {m : Move} {me n : Nat} {c c' : Cycle} {sc sc' : Scout}
  {spec : Discovery.Spec} {batch : List Target} {k : Key} {rest collectors : List Key} {o : Delivery.Outcome}
  {es : List Errand} {cs : List Nat} {status : Discovery.Status}

theorem TurnAt.concat (h : TurnAt r ms me n u c) (m : Move) : TurnAt r (ms ++ [m]) me n u c := by
  obtain ⟨before, after, rfl, hu, hc⟩ := h
  exact ⟨before, after ++ [m], by simp, hu, hc⟩

theorem TurnAt.of_concat (h : TurnAt r (ms ++ [m]) me n u c) :
    TurnAt r ms me n u c ∨ m = .turn me ∧ r.replay ms = some u ∧ u.cycleOf me = some (n, c) := by
  obtain ⟨before, after, he, hu, hc⟩ := h
  rcases List.eq_nil_or_concat after with rfl | ⟨after', m', rfl⟩
  · obtain ⟨rfl, hm⟩ := List.append_inj' he rfl
    exact .inr ⟨List.singleton_inj.mp hm, hu, hc⟩
  · rw [List.concat_eq_append, ← List.cons_append, ← List.append_assoc] at he
    obtain ⟨rfl, -⟩ := List.append_inj' he rfl
    exact .inl ⟨before, after', rfl, hu, hc⟩

theorem DeliversTo.concat (h : DeliversTo r ms me n spec batch rest k o) (m : Move) :
    DeliversTo r (ms ++ [m]) me n spec batch rest k o := by
  obtain ⟨u, v, w, tally, tally', d, s, result, hu, hr, hv, hc, hw, ho⟩ := h
  exact ⟨u, v, w, tally, tally', d, s, result, hu.concat m, hr, hv.concat m, hc, hw.concat m, ho⟩

theorem Errands.concat (h : Errands r ms me n spec batch collectors es rest) (m : Move) :
    Errands r (ms ++ [m]) me n spec batch collectors es rest := by
  induction h with
  | none => exact .none
  | more _ he ih =>
    refine .more ih ?_
    cases he with
    | skipped hu hk => exact .skipped (hu.concat m) hk
    | made ho hu => exact .made (ho.concat m) (hu.concat m)

theorem Errands.keys (h : Errands r ms me n spec batch collectors es rest) :
    es.map (·.key) ++ rest = collectors := by
  induction h with
  | none => rfl
  | more _ _ ih => simpa using ih

/-! Turns of a cycle -/

def Scanned (r : Relay) (ms : List Move) (me n : Nat) (spec : Discovery.Spec) (batch : List Target) : Prop :=
  ∃ u, TurnAt r ms me n u .scanning ∧ batch = spec.scan u.inventory u.outage

def Dispatched (r : Relay) (ms : List Move) (me n : Nat) (sc : Scout) (batch : List Target) (es : List Errand) :
    Prop :=
  if sc.connected then Errands r ms me n sc.spec batch sc.collectors es [] else es = []

def Cycle.channel? (c : Cycle) : Option Nat := c.delivery?.bind (·.channel?)

def Tally.ready1 (t : Tally) : Tally := { t with ready := t.ready + 1 }

/-- A cycle is in the middle of a delivery. It found the collector ready, and the channel, if the delivery has come
to one, under its key. -/
structure Dispatching (r : Relay) (ms : List Move) (me n : Nat) (sc : Scout) (batch : List Target)
    (es : List Errand) (rest : List Key) (d : Delivery) : Prop where
  connected : sc.connected = true
  scanned : Scanned r ms me n sc.spec batch
  errands : Errands r ms me n sc.spec batch sc.collectors es (d.key :: rest)
  chosen : ∃ u tally, TurnAt r ms me n u (.choosing batch (d.key :: rest) tally) ∧ u.isReady d.key = true ∧
    d.limit = u.sendLimit sc.spec
  found : ∀ i, d.channel? = some i → ∃ v, TurnAt r ms me n v
    (.delivering batch (.start d.key batch d.limit) rest (tallyOf es).ready1) ∧
    v.registry.channels.get? d.key = some i

/-- How far a cycle has come, with the errands made and the channels touched. -/
inductive Underway (r : Relay) (ms : List Move) (me n : Nat) (sc : Scout) (s : Relay) :
    Cycle → List Errand → List Nat → Prop
  | asking (h : Clear s me (r.brought me)) : Underway r ms me n sc s .asking [] []
  | queued (h : Clear s me (r.brought me)) : Underway r ms me n sc s .queued [] []
  | scanning (h : Clear s me (r.brought me)) : Underway r ms me n sc s .scanning [] []
  | choosing {batch : List Target} {es : List Errand} {rest : List Key} (hc : sc.connected = true)
      (hb : Scanned r ms me n sc.spec batch) (he : Errands r ms me n sc.spec batch sc.collectors es rest)
      (h : Clear s me (r.brought me ++ es.flatMap (·.brings batch))) :
      Underway r ms me n sc s (.choosing batch rest (tallyOf es)) es (channelsOf es)
  | delivering {batch : List Target} {es : List Errand} {rest : List Key} {d : Delivery}
      (hd : Dispatching r ms me n sc batch es rest d)
      (h : Conveyed s me (r.brought me ++ es.flatMap (·.brings batch)) batch d) :
      Underway r ms me n sc s (.delivering batch d rest (tallyOf es).ready1) es
        (channelsOf es ++ d.channel?.toList)
  | measuring {batch : List Target} {es : List Errand} {k : Key} {rest : List Key} {o : Delivery.Outcome}
      (hc : sc.connected = true) (hb : Scanned r ms me n sc.spec batch)
      (he : Errands r ms me n sc.spec batch sc.collectors es (k :: rest))
      (ho : DeliversTo r ms me n sc.spec batch rest k o)
      (h : Clear s me (r.brought me ++ es.flatMap (·.brings batch) ++ o.brings batch)) :
      Underway r ms me n sc s (.measuring batch k rest (tallyOf es).ready1) es
        (channelsOf es ++ o.channel?.toList)
  | reporting {batch : List Target} {es : List Errand} (hb : Scanned r ms me n sc.spec batch)
      (he : Dispatched r ms me n sc batch es) (h : Clear s me (r.brought me ++ es.flatMap (·.brings batch))) :
      Underway r ms me n sc s (.reporting batch.length (tallyOf es)) es (channelsOf es)

theorem Scanned.concat (h : Scanned r ms me n spec batch) (m : Move) : Scanned r (ms ++ [m]) me n spec batch := by
  obtain ⟨u, hu, hb⟩ := h
  exact ⟨u, hu.concat m, hb⟩

theorem Dispatched.concat (h : Dispatched r ms me n sc batch es) (m : Move) :
    Dispatched r (ms ++ [m]) me n sc batch es := by
  unfold Dispatched at h ⊢
  split
  · rename_i hc
    rw [if_pos hc] at h
    exact h.concat m
  · rename_i hc
    rwa [if_neg hc] at h

theorem Dispatching.concat {d : Delivery} (h : Dispatching r ms me n sc batch es rest d) (m : Move) :
    Dispatching r (ms ++ [m]) me n sc batch es rest d := by
  obtain ⟨u, tally, hu, hr, hl⟩ := h.chosen
  refine ⟨h.connected, h.scanned.concat m, h.errands.concat m, ⟨u, tally, hu.concat m, hr, hl⟩,
    fun i hi => ?_⟩
  obtain ⟨v, hv, hg⟩ := h.found i hi
  exact ⟨v, hv.concat m, hg⟩

theorem Underway.concat (h : Underway r ms me n sc s c es cs) (m : Move)
    (ht : ∀ {before : List (Nat × Target)}, Clear s me before → Clear t me before)
    (hv : ∀ {before : List (Nat × Target)} {batch : List Target} {d : Delivery},
      Conveyed s me before batch d → Conveyed t me before batch d) :
    Underway r (ms ++ [m]) me n sc t c es cs := by
  cases h with
  | asking h => exact .asking (ht h)
  | queued h => exact .queued (ht h)
  | scanning h => exact .scanning (ht h)
  | choosing hc hb he h => exact .choosing hc (hb.concat m) (he.concat m) (ht h)
  | delivering hd h => exact .delivering (hd.concat m) (hv h)
  | measuring hc hb he ho h => exact .measuring hc (hb.concat m) (he.concat m) (ho.concat m) (ht h)
  | reporting hb he h => exact .reporting (hb.concat m) (he.concat m) (ht h)

theorem Clear.aside {before : List (Nat × Target)} (h : Clear r me before) (ha : Aside r s) : Clear s me before :=
  h.admits ((Quiet.aside ha).admits me 0)

theorem choose_eq (r : Relay) (sc : Scout) (batch : List Target) (k : Key) (rest : List Key) (tally : Tally) :
    r.choose sc batch k rest tally =
      if r.isReady k then .delivering batch (.start k batch (r.sendLimit sc.spec)) rest tally.ready1
      else .choosing batch rest tally := by
  rw [choose, isReady]
  cases r.inventory.getCollector r.outage k with
  | error f => rfl
  | ok spec? => cases spec? <;> rfl

theorem channelsOf_append (es : List Errand) (e : Errand) :
    channelsOf (es ++ [e]) = channelsOf es ++ e.channel?.toList := by
  cases hc : e.channel? <;> simp [channelsOf, hc]

theorem tallyOf_skipped (es : List Errand) (k : Key) : tallyOf (es ++ [.skipped k]) = tallyOf es := by
  simp [tallyOf, Errand.isReady, Errand.depth]

theorem tallyOf_made (es : List Errand) (k : Key) (o : Delivery.Outcome) (depth : Nat) :
    tallyOf (es ++ [.made k o depth]) =
      { (tallyOf es).ready1 with inFlight := (tallyOf es).ready1.inFlight + depth } := by
  simp [tallyOf, Errand.isReady, Errand.depth, Tally.ready1]

namespace Underway

variable {p : Cycle.Progress}

def Next (r : Relay) (ms : List Move) (me n : Nat) (sc : Scout) (s : Relay) (c' : Cycle) (cs : List Nat) : Prop :=
  ∃ es' cs', Underway r ms me n sc s c' es' cs' ∧ ∀ i ∈ cs, i ∈ cs'

theorem chooses (hc : sc.connected = true) (hb : Scanned r ms me n sc.spec batch)
    (he : Errands r ms me n sc.spec batch sc.collectors es (k :: rest))
    (h : Clear s me (r.brought me ++ es.flatMap (·.brings batch))) (ht : sc'.terms = sc.terms)
    (hu : TurnAt r ms me n s (.choosing batch (k :: rest) (tallyOf es))) :
    Next r ms me n sc s (s.choose sc' batch k rest (tallyOf es)) (channelsOf es) := by
  have hspec : sc'.spec = sc.spec := congrArg (·.2.1) ht
  cases hk : s.isReady k with
  | false =>
    have hes : Errands r ms me n sc.spec batch sc.collectors (es ++ [.skipped k]) rest := .more he (.skipped hu hk)
    have hcl : Clear s me (r.brought me ++ (es ++ [Errand.skipped k]).flatMap (·.brings batch)) := by
      simpa [Errand.brings] using h
    rw [choose_eq, if_neg (by simp [hk]), ← tallyOf_skipped es k]
    exact ⟨_, _, .choosing hc hb hes hcl, by simp [channelsOf_append, Errand.channel?]⟩
  | true =>
    rw [choose_eq, if_pos hk, hspec]
    have hd : Dispatching r ms me n sc batch es rest (.start k batch (s.sendLimit sc.spec)) :=
      ⟨hc, hb, he, ⟨s, _, hu, hk, rfl⟩, by simp [Delivery.start, Delivery.channel?]⟩
    exact ⟨_, _, .delivering hd (.unaddressed h), by simp [Delivery.start, Delivery.channel?]⟩

theorem goesOn {d d' : Delivery} (hd : Dispatching r ms me n sc batch es rest d)
    (h : Conveyed s me (r.brought me ++ es.flatMap (·.brings batch)) batch d)
    (hw : TurnAt r ms me n s (.delivering batch d rest (tallyOf es).ready1))
    (hf : Forwarded s me d t (.going d')) :
    Next r ms me n sc t (.delivering batch d' rest (tallyOf es).ready1) (channelsOf es ++ d.channel?.toList) := by
  have h' := h.going hf
  obtain ⟨hk, hlim⟩ : d'.key = d.key ∧ d'.limit = d.limit := by cases hf <;> exact ⟨rfl, rfl⟩
  have hkept {i : Nat} (hi : d.channel? = some i) : d'.channel? = some i := by
    cases hf with
    | finds => simp [Delivery.channel?] at hi
    | _ => exact hi
  have found (i : Nat) (hi : d'.channel? = some i) : ∃ v, TurnAt r ms me n v
      (.delivering batch (.start d.key batch d.limit) rest (tallyOf es).ready1) ∧
      v.registry.channels.get? d.key = some i := by
    cases hdc : d.channel? with
    | some j =>
      obtain rfl := Option.some.inj ((hkept hdc).symm.trans hi)
      exact hd.found j hdc
    | none =>
      cases hf with
      | finds hg =>
        cases h with
        | unaddressed =>
          obtain rfl := Option.some.inj hi
          exact ⟨s, hw, hg⟩
      | _ => simp [Delivery.channel?] at hdc
  have hd' : Dispatching r ms me n sc batch es rest d' := by
    refine ⟨hd.connected, hd.scanned, hk ▸ hd.errands, ?_, ?_⟩
    · rw [hk, hlim]
      exact hd.chosen
    · rw [hk, hlim]
      exact found
  refine ⟨_, _, .delivering hd' h', ?_⟩
  cases hdc : d.channel? with
  | none => simp +contextual
  | some j => simp [hkept hdc]

theorem concludes {d : Delivery} {result : Except Failure Unit} (hd : Dispatching r ms me n sc batch es rest d)
    (h : Conveyed s me (r.brought me ++ es.flatMap (·.brings batch)) batch d)
    (hw : TurnAt r ms me n s (.delivering batch d rest (tallyOf es).ready1))
    (hq : s.deliver me d = some (t, .over result)) :
    Next r ms me n sc t (.measuring batch d.key rest (tallyOf es).ready1)
      (channelsOf es ++ d.channel?.toList) := by
  obtain ⟨o, ho, h'⟩ := h.over (deliver_forwarded hq)
  have hch : o.channel? = d.channel? := by
    cases ho with
    | closed hd' => exact hd'.symm
    | _ => rfl
  obtain ⟨v, hv, hg⟩ : ∃ v, TurnAt r ms me n v
      (.delivering batch (.start d.key batch d.limit) rest (tallyOf es).ready1) ∧
      v.registry.channels.get? d.key = o.channel? := by
    cases hdc : d.channel? with
    | some i =>
      rw [hch, hdc]
      exact hd.found i hdc
    | none =>
      cases ho with
      | unknown hg =>
        cases h with
        | unaddressed => exact ⟨s, hw, hg⟩
      | closed hd' => simp [hd'] at hdc
      | _ => simp [Delivery.channel?] at hdc
  obtain ⟨u, tally, hu, hr, hl⟩ := hd.chosen
  have hdel : DeliversTo r ms me n sc.spec batch rest d.key o :=
    ⟨u, v, s, tally, _, d, t, result, hu, hr, hl ▸ hv, hg, hw, rfl, hl, hq, ho⟩
  exact ⟨_, _, .measuring hd.connected hd.scanned hd.errands hdel h', by simp [hch]⟩

theorem measures (hc : sc.connected = true) (hb : Scanned r ms me n sc.spec batch)
    (he : Errands r ms me n sc.spec batch sc.collectors es (k :: rest))
    (ho : DeliversTo r ms me n sc.spec batch rest k o)
    (h : Clear s me (r.brought me ++ es.flatMap (·.brings batch) ++ o.brings batch))
    (hu : TurnAt r ms me n s (.measuring batch k rest (tallyOf es).ready1)) :
    Next r ms me n sc s
      (.choosing batch rest { (tallyOf es).ready1 with inFlight := (tallyOf es).ready1.inFlight + s.depthUnder k })
      (channelsOf es ++ o.channel?.toList) := by
  have hes : Errands r ms me n sc.spec batch sc.collectors (es ++ [.made k o (s.depthUnder k)]) rest :=
    .more he (.made ho hu)
  have hcl : Clear s me (r.brought me ++
      (es ++ [Errand.made k o (s.depthUnder k)]).flatMap (·.brings batch)) := by
    simpa [Errand.brings] using h
  rw [← tallyOf_made es k o]
  exact ⟨_, _, .choosing hc hb hes hcl, by simp [channelsOf_append, Errand.channel?]⟩

theorem own {s' : Relay} (h : Underway r ms me n sc s c es cs) (hs : s.scouts.get? n = some sc')
    (ht : sc'.terms = sc.terms) (hu : TurnAt r ms me n s c) (hc : s.cycle me n sc' c = some (s', .going c')) :
    Next r ms me n sc s' c' cs := by
  have hspec : sc'.spec = sc.spec := congrArg (·.2.1) ht
  have hconn : sc'.connected = sc.connected := congrArg (·.2.2.1) ht
  have hcoll : sc'.collectors = sc.collectors := Scout.collectors_terms ht
  cases h with
  | asking h =>
    have ha : Clear (s.ask me n sc').1 me (r.brought me) := h.aside (.ask hs me)
    simp only [cycle, Option.some.injEq, Prod.mk.injEq, Cycle.Progress.going.injEq] at hc
    obtain ⟨rfl, rfl⟩ := hc
    revert ha
    rw [ask]
    split
    · exact fun ha => ⟨[], [], .scanning ha, by simp⟩
    · exact fun ha => ⟨[], [], .queued ha, by simp⟩
  | queued h =>
    simp only [cycle] at hc
    split at hc
    · simp only [Option.some.injEq, Prod.mk.injEq, Cycle.Progress.going.injEq] at hc
      obtain ⟨rfl, rfl⟩ := hc
      exact ⟨[], [], .scanning h, by simp⟩
    · simp at hc
  | scanning h =>
    simp only [cycle, Option.some.injEq, Prod.mk.injEq, Cycle.Progress.going.injEq, hspec, hconn, hcoll] at hc
    obtain ⟨rfl, rfl⟩ := hc
    have hb : Scanned r ms me n sc.spec (sc.spec.scan s.inventory s.outage) := ⟨s, hu, rfl⟩
    split
    · rename_i hcon
      exact ⟨_, _, .choosing hcon hb .none (by simpa using h), by simp⟩
    · rename_i hcon
      have he : Dispatched r ms me n sc (sc.spec.scan s.inventory s.outage) [] := by simp [Dispatched, hcon]
      exact ⟨_, _, .reporting hb he (by simpa using h), by simp⟩
  | @choosing batch es rest hcon hb he h =>
    cases rest with
    | nil =>
      simp only [cycle, Option.some.injEq, Prod.mk.injEq, Cycle.Progress.going.injEq] at hc
      obtain ⟨rfl, rfl⟩ := hc
      exact ⟨_, _, .reporting hb (by simpa [Dispatched, hcon] using he) h, fun _ hi => hi⟩
    | cons k rest =>
      simp only [cycle, Option.some.injEq, Prod.mk.injEq, Cycle.Progress.going.injEq] at hc
      obtain ⟨rfl, rfl⟩ := hc
      exact chooses hcon hb he h ht hu
  | delivering hd h =>
    obtain ⟨⟨s'', q⟩, hq, hc⟩ := Option.map_eq_some_iff.mp hc
    cases q with
    | going d' =>
      obtain ⟨rfl, hgo⟩ := Prod.mk.inj hc
      obtain rfl := Cycle.Progress.going.inj hgo
      exact goesOn hd h hu (deliver_forwarded hq)
    | «over» result =>
      obtain ⟨rfl, hgo⟩ := Prod.mk.inj hc
      obtain rfl := Cycle.Progress.going.inj hgo
      exact concludes hd h hu hq
  | measuring hcon hb he ho h =>
    simp only [cycle, Option.some.injEq, Prod.mk.injEq, Cycle.Progress.going.injEq] at hc
    obtain ⟨rfl, rfl⟩ := hc
    exact measures hcon hb he ho h hu
  | reporting => simp [cycle] at hc

theorem touches {i : Nat} (h : Underway r ms me n sc s c es cs) (hi : c.channel? = some i) : i ∈ cs := by
  cases h with
  | delivering _ _ =>
    have hd : Delivery.channel? _ = some i := hi
    simp [hd]
  | _ => simp [Cycle.channel?, Cycle.delivery?] at hi

theorem setTask (h : Underway r ms me n sc s c es cs) (w : Nat) (t : Task) :
    Underway r ms me n sc (s.setTask w t) c es cs := by
  cases h with
  | asking h => exact .asking (h.setTask w t)
  | queued h => exact .queued (h.setTask w t)
  | scanning h => exact .scanning (h.setTask w t)
  | choosing hc hb he h => exact .choosing hc hb he (h.setTask w t)
  | delivering hd h => exact .delivering hd (h.setTask w t)
  | measuring hc hb he ho h => exact .measuring hc hb he ho (h.setTask w t)
  | reporting hb he h => exact .reporting hb he (h.setTask w t)

end Underway

theorem Cycling.replays (h : Cycling r me n ms s c) : r.replay ms = some s ∧ s.cycleOf me = some (n, c) := by
  induction h with
  | begins h => exact ⟨rfl, h⟩
  | goesOn _ hm hc ih => exact ⟨by rw [replay_concat, ih.1, Option.bind_some, hm], hc⟩

theorem Cycling.underway (hr : Reachable r) (hs : r.scouts.get? n = some sc) (h : Cycling r me n ms s c) :
    (∃ sc', s.scouts.get? n = some sc' ∧ sc'.terms = sc.terms) ∧
    ∃ es cs, Underway r ms me n sc s c es cs ∧
      ∀ u x i, TurnAt r ms me n u x → x.channel? = some i → i ∈ cs := by
  induction h with
  | begins h =>
    obtain ⟨t, ht, hc⟩ := Option.bind_eq_some_iff.mp h
    refine ⟨⟨sc, hs, rfl⟩, [], [], .asking (hr.clear ht (delivery?_cycle hc)), ?_⟩
    rintro u x i ⟨before, after, he, -⟩
    simp at he
  | @goesOn ms m s t c c' h hm hc' ih =>
    obtain ⟨hrun, hc⟩ := h.replays
    obtain ⟨⟨sc', hs', hterms⟩, es, cs, hu, hcs⟩ := ih
    have hn := (hr.later (replay_later hrun)).numbered
    obtain ⟨sc'', hs'', hterms'⟩ := move_terms hn hm n sc' hs'
    refine ⟨⟨sc'', hs'', hterms'.trans hterms⟩, ?_⟩
    obtain ⟨a, ha, hac⟩ := Option.bind_eq_some_iff.mp hc
    by_cases hme : m = .turn me
    · subst hme
      obtain ⟨s', p, t', hp, rfl, hgo, hover⟩ := step_cycle ha hac hs' hm
      have ht' : t'.cycle? = some (n, c') := by simpa [cycleOf, setTask] using hc'
      cases p with
      | going c'' =>
        obtain ⟨-, rfl⟩ := Prod.mk.inj (Option.some.inj ((hgo c'' rfl).symm.trans ht'))
        have hturn : TurnAt r (ms ++ [.turn me]) me n s c := ⟨ms, [], rfl, hrun, hc⟩
        obtain ⟨es', cs', hu', hsub⟩ := (hu.concat (.turn me) id id).own hs' hterms hturn hp
        refine ⟨es', cs', hu'.setTask me t', fun u x i hux hi => ?_⟩
        rcases hux.of_concat with hux | ⟨-, hru, hcu⟩
        · exact hsub i (hcs u x i hux hi)
        · obtain rfl := Option.some.inj (hrun.symm.trans hru)
          obtain ⟨-, rfl⟩ := Prod.mk.inj (Option.some.inj (hc.symm.trans hcu))
          exact hsub i (hu.touches hi)
      | «over» status => rcases hover status rfl with rfl | ⟨due, rfl⟩ <;> simp [Task.cycle?] at ht'
    · have ha' : t.tasks.get? me = some a :=
        task_kept hn hm ha hme (by rintro _ _ _ _ rfl; simp [Task.cycle?] at hac)
      obtain rfl : c = c' := by simpa [cycleOf, ha', hac] using hc'
      obtain ⟨i, ts, had⟩ := move_admits hn hm hme
      refine ⟨es, cs, hu.concat m (·.admits had) (·.admits had), fun u x i hux hi => ?_⟩
      rcases hux.of_concat with hux | ⟨he, -⟩
      · exact hcs u x i hux hi
      · exact absurd he hme

/-! Whole cycles -/

theorem cycle_over {status : Discovery.Status} (h : r.cycle me n sc c = some (s, .over status)) :
    ∃ found tally, c = .reporting found tally := by
  cases c with
  | reporting found tally => exact ⟨found, tally, rfl⟩
  | delivering batch d rest tally =>
    obtain ⟨⟨s', q⟩, -, he⟩ := Option.map_eq_some_iff.mp h
    cases q <;> simp at he
  | choosing batch rest tally => cases rest <;> simp [cycle] at h
  | _ => simp [cycle] at h

theorem Cycled.accounts (hr : Reachable r) (hs : r.scouts.get? n = some sc) (h : Cycled r me n ms status t) :
    ∃ batch es, Scanned r ms me n sc.spec batch ∧ Dispatched r ms me n sc batch es ∧
      Clear t me (r.brought me ++ es.flatMap (·.brings batch)) ∧
      (∀ u x i, TurnAt r ms me n u x → x.channel? = some i → i ∈ channelsOf es) ∧
      ∃ w : Relay, status = w.cycleStatus sc batch.length (tallyOf es) := by
  obtain @⟨ms, s, t, u, c, sc', status, h, hs', hc, hm⟩ := h
  obtain ⟨hrun, hcy⟩ := h.replays
  obtain ⟨⟨sc'', hs'', hterms⟩, es, cs, hu, hcs⟩ := h.underway hr hs
  obtain rfl := Option.some.inj (hs'.symm.trans hs'')
  obtain ⟨a, ha, hac⟩ := Option.bind_eq_some_iff.mp hcy
  obtain ⟨s', p, t', hp, rfl, -, -⟩ := step_cycle ha hac hs' hm
  obtain ⟨rfl, rfl⟩ := Prod.mk.inj (Option.some.inj (hp.symm.trans hc))
  obtain ⟨found, tally, rfl⟩ := cycle_over hc
  cases hu.concat (.turn me) id id with
  | @reporting batch es hb he hcl =>
    have hcol := Scout.collectors_terms hterms
    simp only [cycle, Option.some.injEq, Prod.mk.injEq, Cycle.Progress.over.injEq] at hc
    obtain ⟨rfl, rfl⟩ := hc
    refine ⟨batch, es, hb, he, ?_, fun u x i hux hi => ?_, s, ?_⟩
    · have hw := Aside.writeStatus s sc' (s.cycleStatus sc' batch.length (tallyOf es))
      exact (hcl.aside (hw.trans (.passOn (by rw [Aside.writeStatus_scouts, hs'])))).setTask me t'
    · rcases hux.of_concat with hux | ⟨-, hru, hcu⟩
      · exact hcs u x i hux hi
      · obtain rfl := Option.some.inj (hrun.symm.trans hru)
        obtain ⟨-, rfl⟩ := Prod.mk.inj (Option.some.inj (hcy.symm.trans hcu))
        simp [Cycle.channel?, Cycle.delivery?] at hi
    · simp only [cycleStatus, hcol]

def staysIn (r : Relay) (me n : Nat) : List Move → Bool
  | [] => true
  | m :: rest =>
    match r.move m with
    | some s => (s.cycleOf me).any (·.1 == n) && staysIn s me n rest
    | none => false

theorem Cycling.stays {ms' : List Move} (h : Cycling r me n ms s c) (hs : s.staysIn me n ms' = true) :
    ∃ t c', s.replay ms' = some t ∧ Cycling r me n (ms ++ ms') t c' := by
  induction ms' generalizing ms s c with
  | nil => exact ⟨s, c, rfl, by simpa using h⟩
  | cons m rest ih =>
    rw [staysIn] at hs
    cases hm : s.move m with
    | none => simp [hm] at hs
    | some u =>
      simp only [hm, Bool.and_eq_true] at hs
      obtain ⟨⟨i, c'⟩, hc, hi⟩ := (Option.any_eq_true _ _).mp hs.1
      obtain rfl : i = n := by simpa using hi
      obtain ⟨t, c'', ht, hcy⟩ := ih (h.goesOn hm hc) hs.2
      exact ⟨t, c'', by rw [replay, hm, Option.bind_some, ht], by simpa using hcy⟩

/-- The status that a cycle comes to with its next turn, if that is its last one. -/
def completes? (r : Relay) (me n : Nat) : Option (Discovery.Status × Relay) :=
  match r.cycleOf me, r.scouts.get? n with
  | some (_, c), some sc =>
    match r.cycle me n sc c with
    | some (_, .over status) => (r.step me).map (status, ·)
    | _ => none
  | _, _ => none

theorem Cycled.of_run (hc : r.cycleOf me = some (n, .asking)) (hs : r.staysIn me n ms = true)
    (he : (r.replay ms).bind (·.completes? me n) = some (status, t)) :
    Cycled r me n (ms ++ [.turn me]) status t := by
  obtain ⟨s, c, hrun, h⟩ := (Cycling.begins hc).stays hs
  rw [hrun, Option.bind_some, completes?, h.replays.2] at he
  cases hsc : s.scouts.get? n with
  | none => simp [hsc] at he
  | some sc =>
    simp only [hsc] at he
    split at he
    · rename_i u x hx
      obtain ⟨t', ht, heq⟩ := Option.map_eq_some_iff.mp he
      obtain ⟨rfl, rfl⟩ := Prod.mk.inj heq
      exact .mk h hsc hx ht
    · simp at he

theorem Cycled.returns (h : Cycled r me n ms status t) :
    t.tasks.get? me = some (.ended (.ok (some status))) ∨
    ∃ due, t.tasks.get? me = some (.loop n due .resting) := by
  obtain @⟨ms, s, t, u, c, sc', status, h, hs', hc, hm⟩ := h
  obtain ⟨a, ha, hac⟩ := Option.bind_eq_some_iff.mp h.replays.2
  obtain ⟨s', p, t', hp, rfl, -, hover⟩ := step_cycle ha hac hs' hm
  obtain ⟨rfl, rfl⟩ := Prod.mk.inj (Option.some.inj (hp.symm.trans hc))
  rcases hover status rfl with rfl | ⟨due, rfl⟩ <;> simp [setTask]

theorem Cycled.replays (h : Cycled r me n ms status t) : r.replay ms = some t := by
  obtain ⟨h, -, -, hm⟩ := h
  rw [replay_concat, h.replays.1, Option.bind_some]
  exact hm

theorem Delivered.channel {d : Delivery} {i : Nat} (h : Delivered r me d s) (hi : d.channel? ≠ some i) :
    s.channel i = r.channel i := by
  have other {j : Nat} {ch : Channel} (hj : d.channel? = some j) :
      (r.setChannel j ch).channel i = r.channel i := by
    rw [channel_setChannel, if_neg]
    rintro rfl
    exact hi hj
  cases h with
  | enters hc => exact other hc
  | blocks hc => exact other hc
  | withdraws hc => exact other hc

theorem TurnAt.channel {i : Nat} (h : TurnAt r ms me n u c) (hm : u.step me = some t)
    (hi : c.channel? ≠ some i) : t.channel i = u.channel i := by
  obtain ⟨-, -, -, -, hc⟩ := h
  obtain ⟨a, ha, hac⟩ := Option.bind_eq_some_iff.mp hc
  cases hs : u.scouts.get? n with
  | none =>
    obtain ⟨t', rfl⟩ := step_unknown ha hac hs hm
    rfl
  | some sc =>
    obtain ⟨s', p, t', hp, rfl, -, -⟩ := step_cycle ha hac hs hm
    change s'.channel i = u.channel i
    rcases (cycle_sent hs hp).1 with haside | ⟨d, hd, hdel⟩
    · obtain ⟨-, -, -, -, -⟩ := haside
      rfl
    · exact hdel.channel (by simpa [Cycle.channel?, hd] using hi)

theorem Errands.done {e : Errand} (h : Errands r ms me n spec batch collectors es rest) (he : e ∈ es) :
    ∃ later, e.Done r ms me n spec batch later := by
  induction h with
  | none => simp at he
  | @more es e' rest _ hd ih =>
    rcases List.mem_append.mp he with he | he
    · exact ih he
    · obtain rfl := List.mem_singleton.mp he
      exact ⟨rest, hd⟩

theorem Dispatched.done {e : Errand} (h : Dispatched r ms me n sc batch es) (he : e ∈ es) :
    ∃ later, e.Done r ms me n sc.spec batch later := by
  unfold Dispatched at h
  split at h
  · exact h.done he
  · simp [h] at he

theorem Dispatched.keys (h : Dispatched r ms me n sc batch es) (hc : sc.connected = true) :
    es.map (·.key) = sc.collectors := by
  rw [Dispatched, if_pos hc] at h
  simpa using h.keys

theorem Dispatched.ready_le (h : Dispatched r ms me n sc batch es) :
    es.countP (·.isReady) ≤ sc.collectors.length := by
  cases hc : sc.connected with
  | true =>
    rw [← h.keys hc, List.length_map]
    exact List.countP_le_length
  | false =>
    obtain rfl : es = [] := by simpa [Dispatched, hc] using h
    exact Nat.zero_le _

end ScrapeRelay.Relay

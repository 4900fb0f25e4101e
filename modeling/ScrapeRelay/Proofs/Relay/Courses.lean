import ScrapeRelay.Proofs.Relay.History
import ScrapeRelay.Proofs.Relay.Scouts

/-!
The course of a call. It lists what is to be removed and removes one thing after the other; a source is stopped,
joined and forgotten, a drain is closed, its sink after its workers, and forgotten. Calls that send or make a
cycle do nothing else.
-/

namespace ScrapeRelay.Relay

/-- What a call was asked for and has not begun. -/
def Act.isRequest : Act → Bool
  | .removeSource _ | .removeDrain _ | .removeSources | .removeDrains => true
  | _ => false

def Requests (acts : List Act) : Prop := ∀ a ∈ acts, a.isRequest = true

/-- What a call still has to do: the rest of one removal, or one delivery or cycle, and then requests. -/
inductive Course : List Act → Prop
  | requests {rest : List Act} (h : Requests rest) : Course rest
  | delivers {rest : List Act} (d : Delivery) (h : Requests rest) : Course (.deliver d :: rest)
  | cycles {rest : List Act} (n : Nat) (c : Cycle) (h : Requests rest) : Course (.cycle n c :: rest)
  | stops {rest : List Act} (x : Source) (k : Key) (h : Requests rest) :
      Course (.stopSource x :: .joinSource x :: .forgetDiscovery k :: rest)
  | joins {rest : List Act} (x : Source) (k : Key) (h : Requests rest) :
      Course (.joinSource x :: .forgetDiscovery k :: rest)
  | joined {rest : List Act} (ts : List Nat) (k : Key) (h : Requests rest) :
      Course (.await ts :: .forgetDiscovery k :: rest)
  | forgets {rest : List Act} (k : Key) (h : Requests rest) : Course (.forgetDiscovery k :: rest)
  | closes {rest : List Act} (d : Drain) (k : Key) (h : Requests rest) :
      Course (.closeDrain d :: .forgetCollector k :: rest)
  | closed {rest : List Act} (ws : List Nat) (i : Nat) (k : Key) (h : Requests rest) :
      Course (.await ws :: .closeSink i :: .forgetCollector k :: rest)
  | shuts {rest : List Act} (i : Nat) (k : Key) (h : Requests rest) :
      Course (.closeSink i :: .forgetCollector k :: rest)
  | drops {rest : List Act} (k : Key) (h : Requests rest) : Course (.forgetCollector k :: rest)

def afterFailure (f : Failure) (rest : List Act) (tolerant : Bool) : Task :=
  if tolerant then .call rest tolerant else .ended (.error f)

inductive Called (r : Relay) (me : Nat) (tolerant : Bool) : List Act → Relay → Task → Prop
  | ends : Called r me tolerant [] r finished
  | listsSources (rest : List Act) : Called r me tolerant (.removeSources :: rest) r
      (.call (r.registry.sources.keys.map .removeSource ++ rest) tolerant)
  | listsDrains (rest : List Act) : Called r me tolerant (.removeDrains :: rest) r
      (.call (r.registry.drains.keys.map .removeDrain ++ rest) tolerant)
  | removesSource {k : Key} {x : Source} (rest : List Act) (hx : r.registry.sources.get? k = some x) :
      Called r me tolerant (.removeSource k :: rest)
        { r with registry := { r.registry with sources := r.registry.sources.erase k } }
        (.call (.stopSource x :: .joinSource x :: .forgetDiscovery k :: rest) tolerant)
  | missesSource {k : Key} (f : Failure) (rest : List Act) (hx : r.registry.sources.get? k = none) :
      Called r me tolerant (.removeSource k :: rest) r (afterFailure f rest tolerant)
  | removesDrain {k : Key} {d : Drain} (rest : List Act) (hd : r.registry.drains.get? k = some d) :
      Called r me tolerant (.removeDrain k :: rest)
        { r with registry := { r.registry with
            drains := r.registry.drains.erase k
            channels := r.registry.channels.erase k } }
        (.call (.closeDrain d :: .forgetCollector k :: rest) tolerant)
  | missesDrain {k : Key} (f : Failure) (rest : List Act) (hd : r.registry.drains.get? k = none) :
      Called r me tolerant (.removeDrain k :: rest) r (afterFailure f rest tolerant)
  | sends {d : Delivery} {s : Relay} {p : Delivery.Progress} {t' : Task} (rest : List Act)
      (hd : r.deliver me d = some (s, p))
      (ht : (∃ d', t' = .call (.deliver d' :: rest) tolerant) ∨ t' = .call rest tolerant ∨
        t'.isEnded = true) :
      Called r me tolerant (.deliver d :: rest) s t'
  | cycles {n : Nat} {c : Cycle} {sc : Scout} {s : Relay} {p : Cycle.Progress} {t' : Task} (rest : List Act)
      (hn : r.scouts.get? n = some sc) (hc : r.cycle me n sc c = some (s, p))
      (ht : (∃ c', t' = .call (.cycle n c' :: rest) tolerant) ∨ t'.isEnded = true) :
      Called r me tolerant (.cycle n c :: rest) s t'
  | strays {n : Nat} (c : Cycle) (rest : List Act) (hn : r.scouts.get? n = none) :
      Called r me tolerant (.cycle n c :: rest) r (.call rest tolerant)
  | sleeps (due : Nat) (rest : List Act) : Called r me tolerant (.sleep due :: rest) r (.call rest tolerant)
  | awaits {ts : List Nat} (rest : List Act) (hall : ts.all r.hasEnded = true) :
      Called r me tolerant (.await ts :: rest) r (.call rest tolerant)
  | stops (x : Source) (rest : List Act) :
      Called r me tolerant (.stopSource x :: rest) (r.stopSource x) (.call rest tolerant)
  | joins (x : Source) (rest : List Act) : Called r me tolerant (.joinSource x :: rest) (r.joinSource x).1
      (.call (.await (r.joinSource x).2 :: rest) tolerant)
  | forgets (k : Key) (rest : List Act) : Called r me tolerant (.forgetDiscovery k :: rest)
      (if r.reportEvery.isSome then r.forgetDiscovery k else r) (.call rest tolerant)
  | closes (d : Drain) (rest : List Act) : Called r me tolerant (.closeDrain d :: rest) (r.closeDrain d).1
      (.call ((r.closeDrain d).2 ++ rest) tolerant)
  | shuts (i : Nat) (rest : List Act) :
      Called r me tolerant (.closeSink i :: rest) (r.record (.sinkClosed i)) (.call rest tolerant)
  | drops (k : Key) (rest : List Act) : Called r me tolerant (.forgetCollector k :: rest)
      (if r.reportEvery.isSome then r.forgetCollector k else r) (.call rest tolerant)

/-- What a call comes to that has begun nothing: it is over, or has more requests, or begins to remove
something. -/
inductive Undertakes (tolerant : Bool) : List Act → Task → Prop
  | «over» {acts : List Act} {t' : Task} (he : t'.isEnded = true) : Undertakes tolerant acts t'
  | requests {acts acts' : List Act} (h : Requests acts') : Undertakes tolerant acts (.call acts' tolerant)
  | source {rest : List Act} (k : Key) (x : Source) (h : Requests rest) :
      Undertakes tolerant (.removeSource k :: rest)
      (.call (.stopSource x :: .joinSource x :: .forgetDiscovery k :: rest) tolerant)
  | drain {rest : List Act} (k : Key) (d : Drain) (h : Requests rest) :
      Undertakes tolerant (.removeDrain k :: rest)
      (.call (.closeDrain d :: .forgetCollector k :: rest) tolerant)

variable {r s : Relay} {me n : Nat} {t t' : Task} {k : Key} {a : Act} {acts rest : List Act}
  {tolerant : Bool} {m : Move}

theorem removeSource_called (r : Relay) (me : Nat) (rest : List Act) (tolerant : Bool) (k : Key) :
    Called r me tolerant (.removeSource k :: rest) (r.removeSource k).1
      ((r.removeSource k).2.task rest tolerant) := by
  rw [removeSource]
  split
  · rename_i x hx
    exact .removesSource rest hx
  · rename_i hx
    exact .missesSource _ rest hx

theorem removeDrain_called (r : Relay) (me : Nat) (rest : List Act) (tolerant : Bool) (k : Key) :
    Called r me tolerant (.removeDrain k :: rest) (r.removeDrain k).1
      ((r.removeDrain k).2.task rest tolerant) := by
  rw [removeDrain]
  split
  · rename_i d hd
    exact .removesDrain rest hd
  · rename_i hd
    exact .missesDrain _ rest hd

theorem act_called {p : Act.Progress} (h : r.act me a = some (s, p)) :
    Called r me tolerant (a :: rest) s (p.task rest tolerant) := by
  cases a with
  | deliver d =>
    obtain ⟨⟨s', q⟩, hd, he⟩ := Option.map_eq_some_iff.mp h
    rcases q with d' | (f | u)
    · obtain ⟨rfl, rfl⟩ := Prod.mk.inj he
      exact .sends rest hd (.inl ⟨d', rfl⟩)
    · obtain ⟨rfl, rfl⟩ := Prod.mk.inj he
      refine .sends rest hd (.inr ?_)
      cases tolerant
      · exact .inr rfl
      · exact .inl rfl
    · obtain ⟨rfl, rfl⟩ := Prod.mk.inj he
      exact .sends rest hd (.inr (.inl rfl))
  | cycle n c =>
    simp only [act] at h
    split at h
    · rename_i hn
      obtain ⟨rfl, rfl⟩ := Prod.mk.inj (Option.some.inj h)
      exact .strays c rest hn
    · rename_i sc hn
      obtain ⟨⟨s', q⟩, hc, he⟩ := Option.map_eq_some_iff.mp h
      cases q with
      | going c' =>
        obtain ⟨rfl, rfl⟩ := Prod.mk.inj he
        exact .cycles rest hn hc (.inl ⟨c', rfl⟩)
      | «over» status =>
        obtain ⟨rfl, rfl⟩ := Prod.mk.inj he
        exact .cycles rest hn hc (.inr rfl)
  | sleep due =>
    simp only [act] at h
    split at h
    · obtain ⟨rfl, rfl⟩ := Prod.mk.inj (Option.some.inj h)
      exact .sleeps due rest
    · simp at h
  | await ts =>
    simp only [act] at h
    split at h
    · rename_i hall
      obtain ⟨rfl, rfl⟩ := Prod.mk.inj (Option.some.inj h)
      exact .awaits rest hall
    · simp at h
  | removeSource k =>
    obtain ⟨rfl, rfl⟩ := Prod.mk.inj (Option.some.inj h)
    exact removeSource_called r me rest tolerant k
  | removeDrain k =>
    obtain ⟨rfl, rfl⟩ := Prod.mk.inj (Option.some.inj h)
    exact removeDrain_called r me rest tolerant k
  | stopSource x =>
    obtain ⟨rfl, rfl⟩ := Prod.mk.inj (Option.some.inj h)
    exact .stops x rest
  | joinSource x =>
    obtain ⟨rfl, rfl⟩ := Prod.mk.inj (Option.some.inj h)
    exact .joins x rest
  | forgetDiscovery k =>
    obtain ⟨rfl, rfl⟩ := Prod.mk.inj (Option.some.inj h)
    exact .forgets k rest
  | closeDrain d =>
    obtain ⟨rfl, rfl⟩ := Prod.mk.inj (Option.some.inj h)
    exact .closes d rest
  | closeSink i =>
    obtain ⟨rfl, rfl⟩ := Prod.mk.inj (Option.some.inj h)
    exact .shuts i rest
  | forgetCollector k =>
    obtain ⟨rfl, rfl⟩ := Prod.mk.inj (Option.some.inj h)
    exact .drops k rest
  | removeSources =>
    obtain ⟨rfl, rfl⟩ := Prod.mk.inj (Option.some.inj h)
    exact .listsSources rest
  | removeDrains =>
    obtain ⟨rfl, rfl⟩ := Prod.mk.inj (Option.some.inj h)
    exact .listsDrains rest

theorem callStep_called (h : r.callStep me acts tolerant = some (s, t')) : Called r me tolerant acts s t' := by
  cases acts with
  | nil =>
    obtain ⟨rfl, rfl⟩ := Prod.mk.inj (Option.some.inj h)
    exact .ends
  | cons a rest =>
    obtain ⟨p, ha, rfl⟩ := callStep_cons h
    exact act_called ha

theorem step_called (ht : r.tasks.get? me = some (.call acts tolerant)) (hs : r.step me = some s) :
    ∃ s' t', Called r me tolerant acts s' t' ∧ s = s'.setTask me t' := by
  simp only [step, ht, Option.bind_some, turn] at hs
  obtain ⟨⟨s', t'⟩, hc, rfl⟩ := Option.map_eq_some_iff.mp hs
  exact ⟨s', t', callStep_called hc, rfl⟩

/-! Courses are kept -/

theorem Requests.tail (h : Requests (a :: rest)) : Requests rest := fun b hb => h b (List.mem_cons_of_mem a hb)

theorem Requests.map_append {α : Type} {f : α → Act} (hf : ∀ x, (f x).isRequest = true) (xs : List α)
    (h : Requests rest) : Requests (xs.map f ++ rest) := by
  intro a ha
  rcases List.mem_append.mp ha with ha | ha
  · obtain ⟨x, -, rfl⟩ := List.mem_map.mp ha
    exact hf x
  · exact h a ha

def Task.OnCourse (t : Task) : Prop := ∀ acts tolerant, t = .call acts tolerant → Course acts

theorem onCourse_call (h : Course acts) : (Task.call acts tolerant).OnCourse := by
  rintro _ _ ⟨⟩
  exact h

theorem onCourse_ended (h : t.isEnded = true) : t.OnCourse := by
  rintro acts tolerant rfl
  simp [Task.isEnded] at h

theorem closeDrain_course {d : Drain} (h : Requests rest) :
    Course ((r.closeDrain d).2 ++ .forgetCollector k :: rest) := by
  cases d with
  | probe n keeps =>
    rw [closeDrain_probe]
    exact .drops k h
  | pool n =>
    cases hp : r.pools.get? n with
    | none =>
      simp only [closeDrain, hp]
      exact .drops k h
    | some p =>
      rw [closeDrain_pool hp]
      exact .closed p.workers p.sink k h

theorem afterFailure_undertaken {f : Failure} (h : Requests rest) :
    Undertakes tolerant acts (afterFailure f rest tolerant) := by
  cases tolerant
  · exact .over rfl
  · exact .requests h

theorem Called.undertakes (h : Called r me tolerant acts s t') (hr : Requests acts) :
    Undertakes tolerant acts t' := by
  cases h with
  | ends => exact .over rfl
  | listsSources rest | listsDrains rest => exact .requests (hr.tail.map_append (fun _ => rfl) _)
  | removesSource rest hx => exact .source _ _ hr.tail
  | removesDrain rest hd => exact .drain _ _ hr.tail
  | missesSource f rest | missesDrain f rest => exact afterFailure_undertaken hr.tail
  | _ =>
    have := hr _ List.mem_cons_self
    simp [Act.isRequest] at this

theorem Undertakes.onCourse (h : Undertakes tolerant acts t') : t'.OnCourse := by
  cases h with
  | «over» he => exact onCourse_ended he
  | requests hr => exact onCourse_call (.requests hr)
  | source k x hr => exact onCourse_call (.stops x k hr)
  | drain k d hr => exact onCourse_call (.closes d k hr)

theorem Called.onCourse (h : Called r me tolerant acts s t') (hc : Course acts) : t'.OnCourse := by
  cases hc with
  | requests hr => exact (h.undertakes hr).onCourse
  | delivers d hr =>
    cases h with
    | sends rest hd ht =>
      rcases ht with ⟨d', rfl⟩ | rfl | ht
      · exact onCourse_call (.delivers d' hr)
      · exact onCourse_call (.requests hr)
      · exact onCourse_ended ht
  | cycles n c hr =>
    cases h with
    | cycles rest hn hc ht =>
      rcases ht with ⟨c', rfl⟩ | ht
      · exact onCourse_call (.cycles n c' hr)
      · exact onCourse_ended ht
    | strays => exact onCourse_call (.requests hr)
  | stops x k hr =>
    cases h
    exact onCourse_call (.joins x k hr)
  | joins x k hr =>
    cases h
    exact onCourse_call (.joined _ k hr)
  | joined ts k hr =>
    cases h
    exact onCourse_call (.forgets k hr)
  | forgets k hr =>
    cases h
    exact onCourse_call (.requests hr)
  | closes d k hr =>
    cases h
    exact onCourse_call (closeDrain_course hr)
  | closed ws i k hr =>
    cases h
    exact onCourse_call (.shuts i k hr)
  | shuts i k hr =>
    cases h
    exact onCourse_call (.drops k hr)
  | drops k hr =>
    cases h
    exact onCourse_call (.requests hr)

theorem Call.course (r : Relay) (c : Call) : Course (c.acts r) := by
  cases c with
  | send k batch allowed => exact .delivers _ (by simp [Requests])
  | runOnce n => exact .cycles n .asking (by simp [Requests])
  | removeDiscovery | removePool | shutdown =>
    exact .requests (by simp [Requests, Call.acts, shutdownCall, Act.isRequest])

/-! Turns -/

inductive Acted (r : Relay) (me : Nat) : Task → Relay → Task → Prop
  | works {n c : Nat} {w : Worker} {p : Pool} {s : Relay} {t' : Task} (hp : r.pools.get? n = some p)
      (h : Worked r me n c p w s t') : Acted r me (.worker n c w) s t'
  | strays {n : Nat} (c : Nat) (w : Worker) (hp : r.pools.get? n = none) : Acted r me (.worker n c w) r finished
  | waits {n next : Nat} {aborted : Bool} {stage : Reporter} {t' : Task}
      (ht : t' = finished ∨ ∃ next' stage', t' = .reporter n aborted next' stage') :
      Acted r me (.reporter n aborted next stage) r t'
  | measures {n : Nat} {p : Pool} (aborted : Bool) (next : Nat) (stage stage' : Reporter)
      (status : Collector.Status) (hp : r.pools.get? n = some p) (hc : countersOf status = countersOf p.status) :
      Acted r me (.reporter n aborted next stage) (r.setStatus n p status) (.reporter n aborted next stage')
  | reports (n : Nat) (aborted : Bool) (next : Nat) (k : Key) (status : Collector.Status) :
      Acted r me (.reporter n aborted next (.writing status)) (r.reportCollector k status)
        (.reporter n aborted next .sleeping)
  | retires {i : Nat} {ws : List Nat} (hall : ws.all r.hasEnded = true) :
      Acted r me (.retirement i ws) (r.record (.sinkClosed i)) finished
  | rests (n due : Nat) (stage : Loop) : Acted r me (.loop n due stage) r finished
  | begins (n due due' : Nat) : Acted r me (.loop n due .resting) r (.loop n due' (.cycling .asking))
  | cycles {n : Nat} {c : Cycle} {sc : Scout} {s : Relay} {p : Cycle.Progress} {t' : Task} (due : Nat)
      (hn : r.scouts.get? n = some sc) (hc : r.cycle me n sc c = some (s, p))
      (ht : (∃ c', t' = .loop n due (.cycling c')) ∨ t' = .loop n due .resting) :
      Acted r me (.loop n due (.cycling c)) s t'
  | announces {n : Nat} {sc : Scout} (hn : r.scouts.get? n = some sc) :
      Acted r me (.announcement n) (r.writeStatus sc .idle) finished
  | silent (n : Nat) : Acted r me (.announcement n) r finished
  | calls {acts : List Act} {tolerant : Bool} {s : Relay} {t' : Task} (h : Called r me tolerant acts s t') :
      Acted r me (.call acts tolerant) s t'

theorem report_acted {n next : Nat} {aborted : Bool} {stage : Reporter} {p : Pool} (hp : r.pools.get? n = some p)
    (h : r.report n p aborted next stage = some (s, t')) : Acted r me (.reporter n aborted next stage) s t' := by
  cases stage with
  | sleeping =>
    simp only [report] at h
    split at h
    · obtain ⟨rfl, rfl⟩ := Prod.mk.inj (Option.some.inj h)
      exact .waits (.inl rfl)
    · split at h
      · obtain ⟨rfl, rfl⟩ := Prod.mk.inj (Option.some.inj h)
        exact .waits (.inr ⟨_, _, rfl⟩)
      · simp at h
  | counting | measuring registered =>
    obtain ⟨rfl, rfl⟩ := Prod.mk.inj (Option.some.inj h)
    exact .waits (.inr ⟨_, _, rfl⟩)
  | summing registered inFlight =>
    obtain ⟨rfl, rfl⟩ := Prod.mk.inj (Option.some.inj h)
    refine .measures aborted next _ _ _ hp ?_
    rfl
  | writing status =>
    obtain ⟨rfl, rfl⟩ := Prod.mk.inj (Option.some.inj h)
    exact .reports n aborted next p.key status

theorem loopStep_acted {n due : Nat} {stage : Loop} {sc : Scout} (hn : r.scouts.get? n = some sc)
    (h : r.loopStep me n due sc stage = some (s, t')) : Acted r me (.loop n due stage) s t' := by
  cases stage with
  | resting =>
    simp only [loopStep] at h
    split at h
    · obtain ⟨rfl, rfl⟩ := Prod.mk.inj (Option.some.inj h)
      exact .rests n due .resting
    · split at h
      · obtain ⟨rfl, rfl⟩ := Prod.mk.inj (Option.some.inj h)
        exact .begins n due _
      · simp at h
  | cycling c =>
    obtain ⟨⟨s', q⟩, hc, h⟩ := Option.map_eq_some_iff.mp h
    cases q with
    | going c' =>
      obtain ⟨rfl, rfl⟩ := Prod.mk.inj h
      exact .cycles due hn hc (.inl ⟨c', rfl⟩)
    | «over» status =>
      obtain ⟨rfl, rfl⟩ := Prod.mk.inj h
      exact .cycles due hn hc (.inr rfl)

theorem turn_acted (h : r.turn me t = some (s, t')) : Acted r me t s t' := by
  cases t with
  | worker n c w =>
    simp only [turn] at h
    split at h
    · rename_i p hp
      exact .works hp (work_worked h)
    · rename_i hp
      obtain ⟨rfl, rfl⟩ := Prod.mk.inj (Option.some.inj h)
      exact .strays c w hp
  | reporter n aborted next stage =>
    simp only [turn] at h
    split at h
    · rename_i p hp
      exact report_acted hp h
    · obtain ⟨rfl, rfl⟩ := Prod.mk.inj (Option.some.inj h)
      exact .waits (.inl rfl)
  | retirement i ws =>
    simp only [turn] at h
    split at h
    · rename_i hall
      obtain ⟨rfl, rfl⟩ := Prod.mk.inj (Option.some.inj h)
      exact .retires hall
    · simp at h
  | loop n due stage =>
    simp only [turn] at h
    split at h
    · rename_i sc hn
      exact loopStep_acted hn h
    · obtain ⟨rfl, rfl⟩ := Prod.mk.inj (Option.some.inj h)
      exact .rests n due stage
  | announcement n =>
    simp only [turn] at h
    split at h
    · rename_i sc hn
      obtain ⟨rfl, rfl⟩ := Prod.mk.inj (Option.some.inj h)
      exact .announces hn
    · obtain ⟨rfl, rfl⟩ := Prod.mk.inj (Option.some.inj h)
      exact .silent n
  | call acts tolerant => exact .calls (callStep_called h)
  | ended o => simp [turn] at h

theorem step_acted (hn : Numbered r) (hs : r.step me = some s) : ∃ t t' s', r.tasks.get? me = some t ∧
    Acted r me t s' t' ∧ Turned r me t s' t' ∧ s = s'.setTask me t' := by
  obtain ⟨t, ht, hs⟩ := Option.bind_eq_some_iff.mp hs
  obtain ⟨⟨s', t'⟩, htu, rfl⟩ := Option.map_eq_some_iff.mp hs
  exact ⟨t, t', s', ht, turn_acted htu, turn_turned htu (hn.task me t ht).1, rfl⟩

/-! What discoveries leave alone -/

structure Unconcerned (r s : Relay) : Prop where
  pools : s.pools = r.pools
  board : s.board = r.board
  every : s.reportEvery = r.reportEvery

theorem stopSource_unconcerned (r : Relay) (x : Source) : Unconcerned r (r.stopSource x) := by
  simp only [stopSource]
  split
  · exact ⟨rfl, rfl, rfl⟩
  · split
    · split <;> exact ⟨rfl, rfl, rfl⟩
    · exact ⟨rfl, rfl, rfl⟩

theorem startSource_unconcerned (r : Relay) (x : Source) : Unconcerned r (r.startSource x) := by
  simp only [startSource]
  split
  · exact ⟨rfl, rfl, rfl⟩
  · split
    · exact ⟨rfl, rfl, rfl⟩
    · split <;> exact ⟨rfl, rfl, rfl⟩

theorem installSource_unconcerned (r : Relay) (k : Key) (x : Source) : Unconcerned r (r.installSource k x) := by
  have hretire : Unconcerned r (r.retireSource k) := by
    rw [retireSource]
    split
    · obtain ⟨hp, hb, he⟩ := stopSource_unconcerned (r.setRegistry (r.withoutSource k)) _
      exact ⟨hp, hb, he⟩
    · exact ⟨rfl, rfl, rfl⟩
  obtain ⟨hp, hb, he⟩ := startSource_unconcerned (r.retireSource k) x
  rw [installSource_eq]
  exact ⟨hp.trans hretire.pools, hb.trans hretire.board, he.trans hretire.every⟩

/-! Tasks that begin -/

def retirement? (r : Relay) (k : Key) : Option Task :=
  match r.registry.drains.get? k with
  | some (.pool n) => (r.pools.get? n).map fun p => .retirement p.sink p.workers
  | _ => none

/-- The task that a move begins, but for the workers and the reporter of a new pool. -/
def hired? (r : Relay) : Move → Option Task
  | .call c => some (.call (c.acts r) c.isTolerant)
  | .addDiscovery _ spec _ _ =>
    some (if spec.enabled then .loop r.fresh r.clock .resting else .announcement r.fresh)
  | .addPool k .. | .addProbeDrain k .. => r.retirement? k
  | _ => none

section Views

variable {α : Type} {f : Task → Option α} {spec : Discovery.Spec}

def view (f : Task → Option α) (r : Relay) (w : Nat) : Option α := (r.tasks.get? w).bind f

structure Blind (f : Task → Option α) : Prop where
  worker : ∀ n c x, f (.worker n c x) = none
  reporter : ∀ n aborted next stage, f (.reporter n aborted next stage) = none

theorem view_eq (ht : r.tasks.get? me = some t) : r.view f me = f t := by rw [view, ht, Option.bind_some]

theorem view_setTask (r : Relay) (me w : Nat) (t : Task) :
    (r.setTask me t).view f w = if w = me then f t else r.view f w := by
  simp only [view, setTask, Dict.get?_insert]
  split <;> rfl

theorem view_fresh {w : Nat} (hn : Numbered r) (hw : r.fresh ≤ w) : r.view f w = none := by
  rw [view, hn.tasks w hw, Option.bind_none]

theorem stopSource_times (r : Relay) (x : Source) :
    (r.stopSource x).fresh = r.fresh ∧ (r.stopSource x).clock = r.clock := by
  simp only [stopSource]
  split
  · exact ⟨rfl, rfl⟩
  · split
    · split <;> exact ⟨rfl, rfl⟩
    · exact ⟨rfl, rfl⟩

namespace Blind

variable (hf : Blind f)

include hf

theorem alike {t? u? : Option Task} (h : Alike t? u?) : u?.bind f = t?.bind f := by
  cases h with
  | same => rfl
  | reporters => exact (hf.reporter ..).trans (hf.reporter ..).symm

theorem step (hn : Numbered r) (hs : r.step me = some s) : ∃ t t' s', r.tasks.get? me = some t ∧
    Acted r me t s' t' ∧ s = s'.setTask me t' ∧ ∀ w, s.view f w = if w = me then f t' else r.view f w := by
  obtain ⟨t, t', s', ht, ha, htu, rfl⟩ := step_acted hn hs
  refine ⟨t, t', s', ht, ha, rfl, fun w => ?_⟩
  rw [view_setTask]
  split
  · rfl
  · exact hf.alike (turned_alike htu w)

theorem startDrain (hn : Numbered r) (c : Nat) (d : Drain) (w : Nat) :
    (r.startDrain c d).view f w = r.view f w := by
  cases d with
  | probe n keeps => rfl
  | pool n =>
    cases hp : r.pools.get? n with
    | none => simp only [Relay.startDrain, hp]
    | some p =>
      have free (hw : r.fresh ≤ w) : r.view f w = none := view_fresh hn hw
      rw [startDrain_pool c hp, view]
      change ((r.mustered n c p).get? w).bind f = _
      rw [get?_mustered]
      split
      · rename_i hw
        rw [Option.bind_some, hf.worker, free (List.mem_range'_1.mp hw).1]
      · split
        · rw [Option.bind_some, hf.reporter, free (by omega)]
        · rfl

theorem retireDrain (hn : Numbered r) (hst : ∀ m, Stage r m) (k : Key) (w : Nat) :
    (r.retireDrain k).view f w = if w = r.fresh then (r.retirement? k).bind f else r.view f w := by
  have same (he : (r.retireDrain k).view f w = r.view f w) (hno : r.retirement? k = none) :
      (r.retireDrain k).view f w = if w = r.fresh then (r.retirement? k).bind f else r.view f w := by
    rw [he, hno]
    split
    · rename_i hw
      exact view_fresh hn (Nat.le_of_eq hw.symm)
    · rfl
  cases hd : r.registry.drains.get? k with
  | none => exact same (by simp only [Relay.retireDrain, hd]) (by simp only [retirement?, hd])
  | some d =>
    cases d with
    | probe n keeps => exact same (by simp only [Relay.retireDrain, hd]; rfl) (by simp only [retirement?, hd])
    | pool n =>
      obtain ⟨p, hp, hs⟩ :=
        Option.map_eq_some_iff.mp ((hst (.pool n)).sign (o := .drain k) (by simp [Owns, hd, Drain.member]))
      have hret : r.retirement? k = some (.retirement p.sink p.workers) := by
        simp only [retirement?, hd, hp, Option.map_some]
      rw [retireDrain_pool hd hp hs, view, hret]
      simp only [Dict.get?_insert]
      split
      · rfl
      · exact hf.alike (abortReporter_alike r p w)

theorem installDrain (hn : Numbered r) (hst : ∀ m, Stage r m) (k : Key) (d : Drain) (size : Nat) :
    ∃ w₀, r.fresh ≤ w₀ ∧
    ∀ w, (r.installDrain k d size).view f w = if w = w₀ then (r.retirement? k).bind f else r.view f w := by
  have ho := hn.openChannel k size
  have hsame : (r.openChannel k size).1.tasks = r.tasks ∧
      (r.openChannel k size).1.retirement? k = r.retirement? k := by
    rw [openChannel]
    split <;> exact ⟨rfl, rfl⟩
  have hsto (m : Member) := (hst m).steady (Steady.openChannel r k size)
  refine ⟨(r.openChannel k size).1.fresh, ho.2.1, fun w => ?_⟩
  rw [installDrain_eq]
  change Relay.view f (((r.openChannel k size).1.retireDrain k).startDrain (r.openChannel k size).2 d) w = _
  rw [hf.startDrain (ho.1.retireDrain k).1, hf.retireDrain ho.1 hsto, hsame.2]
  simp only [view, hsame.1]

omit hf in
theorem installSource (k : Key) (n : Nat) (hs : (r.scouts.get? n).map (·.spec) = some spec) (w : Nat) :
    (r.installSource k (.scout n)).view f w =
      if w = r.fresh then f (if spec.enabled then .loop n r.clock .resting else .announcement n)
        else r.view f w := by
  obtain ⟨sc, hsc, rfl⟩ := Option.map_eq_some_iff.mp hs
  have hr : KeepsTerms r (r.retireSource k) ∧ (r.retireSource k).tasks = r.tasks ∧
      (r.retireSource k).fresh = r.fresh ∧ (r.retireSource k).clock = r.clock := by
    rw [retireSource]
    split
    · rename_i old _
      refine ⟨KeepsTerms.stopSource (r.setRegistry (r.withoutSource k)) old, stopSource_tasks .., ?_⟩
      exact stopSource_times (r.setRegistry (r.withoutSource k)) old
    · exact ⟨.of_eq rfl, rfl, rfl, rfl⟩
  obtain ⟨hkeeps, htasks, hfresh, hclock⟩ := hr
  obtain ⟨sc', hsc', hterms⟩ := hkeeps n sc hsc
  obtain ⟨sc'', -, he⟩ := startSource_scout hsc'
  rw [installSource_eq, he, view]
  change (((r.retireSource k).tasks.insert (r.retireSource k).fresh _).get? w).bind f = _
  have hspec : sc'.spec = sc.spec := congrArg (·.2.1) hterms
  rw [Dict.get?_insert, htasks, hfresh, starting, hspec, hclock]
  split <;> rfl

omit hf in
theorem putDiscovery (r : Relay) (k : Key) (connected reports : Bool) (w : Nat) :
    (r.putDiscovery k spec connected reports).view f w =
      if w = r.fresh + 1 then f (if spec.enabled then .loop r.fresh r.clock .resting else .announcement r.fresh)
      else r.view f w :=
  installSource (r := (r.addScout k spec connected reports).1) k r.fresh (by simp [addScout, setScout]) w

theorem putPool (hr : Reachable r) (k : Key) (spec : Collector.Spec) (size : Nat) (accepts : Nat → Bool)
    (every : Option Nat) : ∃ w₀, r.fresh ≤ w₀ ∧ ∀ w, (r.putPool k spec size accepts every).view f w =
      if w = w₀ then (r.retirement? k).bind f else r.view f w := by
  have hn := hr.numbered
  have hs := Steady.addPool hn k spec accepts every
  have hp := (hn.addOutlet accepts).addPool k spec (Nat.lt_succ_self r.fresh) every
  obtain ⟨w₀, hw₀, hv⟩ := hf.installDrain hp (fun m => (hr.stage m).steady hs) k (.pool (r.fresh + 1)) size
  refine ⟨w₀, Nat.le_trans (Nat.le_add_right _ 2) hw₀, fun w => ?_⟩
  have hret : ((r.addOutlet accepts).1.addPool k spec r.fresh every).1.retirement? k = r.retirement? k := by
    simp only [retirement?]
    change (match r.registry.drains.get? k with | some (.pool n) => _ | _ => _) = _
    split
    · rename_i n hd
      change ((r.pools.insert (r.fresh + 1) _).get? n).map _ = _
      have hlt : n < r.fresh := hn.drains k _ hd
      rw [Dict.get?_insert, if_neg (by omega)]
    · rfl
  rw [← hret]
  exact hv w

theorem move (hr : Reachable r) (hm : r.move m = some s) (ht : ∀ me, m ≠ .turn me) :
    ∃ w₀, r.fresh ≤ w₀ ∧ ∀ w, s.view f w = if w = w₀ then (r.hired? m).bind f else r.view f w := by
  have hn := hr.numbered
  have same : ∀ w, r.view f w = if w = r.fresh then none else r.view f w := by
    intro w
    split
    · rename_i hw
      exact view_fresh hn (Nat.le_of_eq hw.symm)
    · rfl
  cases m with
  | turn me => exact absurd rfl (ht me)
  | call c =>
    obtain rfl := Option.some.inj hm
    exact ⟨r.fresh, Nat.le_refl _, fun w => view_setTask r r.fresh w _⟩
  | addDiscovery k spec connected reports =>
    obtain rfl := Option.some.inj hm
    exact ⟨r.fresh + 1, Nat.le_succ _, putDiscovery r k connected reports⟩
  | addPool k spec size accepts every =>
    obtain rfl := Option.some.inj hm
    exact hf.putPool hr k spec size accepts every
  | addProbeSource k collectors =>
    obtain rfl := Option.some.inj hm
    refine ⟨r.fresh, Nat.le_refl _, fun w => Eq.trans ?_ (same w)⟩
    have htasks : (r.putProbeSource k collectors).tasks = r.tasks := by
      change (r.addProbe.1.installSource k (.probe r.fresh collectors)).tasks = r.tasks
      rw [installSource_eq]
      change (r.addProbe.1.retireSource k).tasks = r.tasks
      rw [retireSource]
      split
      · exact stopSource_tasks ..
      · rfl
    rw [view, htasks, view]
  | addProbeDrain k size keeps =>
    obtain rfl := Option.some.inj hm
    have hs := Steady.addProbe r
    obtain ⟨w₀, hw₀, hv⟩ :=
      hf.installDrain hn.addProbe (fun m => (hr.stage m).steady hs) k (.probe r.fresh keeps) size
    exact ⟨w₀, Nat.le_of_succ_le hw₀, hv⟩
  | surround inventory outage network refusing =>
    obtain rfl := Option.some.inj hm
    exact ⟨r.fresh, Nat.le_refl _, same⟩
  | elapse time =>
    obtain rfl := Option.some.inj hm
    exact ⟨r.fresh, Nat.le_refl _, same⟩

end Blind

end Views

/-! Calls -/

def Task.call? : Task → Option (List Act × Bool)
  | .call acts tolerant => some (acts, tolerant)
  | _ => none

theorem call?_blind : Blind Task.call? := ⟨fun _ _ _ => rfl, fun _ _ _ _ => rfl⟩

theorem view_call {w : Nat} :
    r.view Task.call? w = some (acts, tolerant) ↔ r.tasks.get? w = some (.call acts tolerant) := by
  rw [view, Option.bind_eq_some_iff]
  constructor
  · rintro ⟨t, ht, hc⟩
    cases t with
    | call acts' tolerant' =>
      obtain ⟨rfl, rfl⟩ := Prod.mk.inj (Option.some.inj hc)
      exact ht
    | _ => simp [Task.call?] at hc
  · exact fun ht => ⟨_, ht, rfl⟩

theorem Called.tolerance (h : Called r me tolerant acts s t') :
    (∃ acts', t' = .call acts' tolerant) ∨ t'.isEnded = true := by
  cases h with
  | ends => exact .inr rfl
  | missesSource | missesDrain => cases tolerant <;> simp [afterFailure, Task.isEnded]
  | sends rest hd ht =>
    rcases ht with ⟨d', rfl⟩ | rfl | ht
    · exact .inl ⟨_, rfl⟩
    · exact .inl ⟨_, rfl⟩
    · exact .inr ht
  | cycles rest hn hc ht =>
    rcases ht with ⟨c', rfl⟩ | ht
    · exact .inl ⟨_, rfl⟩
    · exact .inr ht
  | _ => exact .inl ⟨_, rfl⟩

theorem Acted.call (h : Acted r me t s (.call acts tolerant)) :
    ∃ acts', t = .call acts' tolerant ∧ Called r me tolerant acts' s (.call acts tolerant) := by
  generalize ht : Task.call acts tolerant = t' at h
  cases h with
  | works hp hw =>
    rcases Numbered.worked_task hw with ⟨w', rfl⟩ | rfl <;> cases ht
  | waits h => rcases h with rfl | ⟨_, _, rfl⟩ <;> cases ht
  | cycles due hn hc h => rcases h with ⟨_, rfl⟩ | rfl <;> cases ht
  | calls h =>
    subst ht
    rcases h.tolerance with ⟨acts', he⟩ | he
    · obtain ⟨-, rfl⟩ := Task.call.inj he
      exact ⟨_, rfl, h⟩
    · simp [Task.isEnded] at he
  | _ => cases ht

theorem step_call {w : Nat} (hn : Numbered r) (hs : r.step me = some s)
    (hw : s.tasks.get? w = some (.call acts tolerant)) :
    w ≠ me ∧ r.tasks.get? w = some (.call acts tolerant) ∨
      ∃ acts' s', w = me ∧ r.tasks.get? w = some (.call acts' tolerant) ∧
        Called r me tolerant acts' s' (.call acts tolerant) ∧ s = s'.setTask me (.call acts tolerant) := by
  obtain ⟨t, t', s', ht, ha, rfl, hv⟩ := call?_blind.step hn hs
  by_cases hwm : w = me
  · subst hwm
    obtain rfl := Option.some.inj ((get?_setTask s' w t').symm.trans hw)
    obtain ⟨acts', rfl, hc⟩ := ha.call
    exact .inr ⟨acts', s', rfl, ht, hc, rfl⟩
  · rw [← view_call, hv, if_neg hwm] at hw
    exact .inl ⟨hwm, view_call.mp hw⟩

theorem move_call {w : Nat} (hr : Reachable r) (hm : r.move m = some s) (hne : m ≠ .turn w)
    (hw : s.tasks.get? w = some (.call acts tolerant)) :
    r.tasks.get? w = some (.call acts tolerant) ∨ ∃ c, m = .call c ∧ acts = c.acts r ∧
    tolerant = c.isTolerant := by
  rcases m.turn_or with ⟨me, rfl⟩ | htu
  · rcases step_call hr.numbered hm hw with ⟨-, ht⟩ | ⟨_, _, rfl, -⟩
    · exact .inl ht
    · exact absurd rfl hne
  · obtain ⟨w₀, -, hv⟩ := call?_blind.move hr hm htu
    rw [← view_call, hv] at hw
    split at hw
    · obtain ⟨t, hh, hc⟩ := Option.bind_eq_some_iff.mp hw
      cases m with
      | call c =>
        obtain rfl := Option.some.inj hh
        obtain ⟨rfl, rfl⟩ := Prod.mk.inj (Option.some.inj hc)
        exact .inr ⟨c, rfl, rfl, rfl⟩
      | addDiscovery k spec connected reports =>
        obtain rfl := Option.some.inj hh
        split at hc <;> simp [Task.call?] at hc
      | addPool k | addProbeDrain k =>
        simp only [hired?, retirement?] at hh
        split at hh
        · obtain ⟨p, -, rfl⟩ := Option.map_eq_some_iff.mp hh
          simp [Task.call?] at hc
        · simp at hh
      | _ => simp [hired?] at hh
    · exact .inl (view_call.mp hw)

theorem Reachable.course (hr : Reachable r) (ht : r.tasks.get? me = some (.call acts tolerant)) : Course acts := by
  refine hr.holds (P := fun r => ∀ me acts tolerant, r.tasks.get? me = some (.call acts tolerant) →
    Course acts) ?_ ?_ me acts tolerant ht
  · intro inventory network every me acts tolerant h
    simp [start] at h
  · intro r m s hr h hm me acts tolerant ht
    by_cases htu : m = .turn me
    · subst htu
      rcases step_call hr.numbered hm ht with ⟨-, ht⟩ | ⟨acts', s', -, ht, hc, -⟩
      · exact h me acts tolerant ht
      · exact hc.onCourse (h me acts' tolerant ht) acts tolerant rfl
    · rcases move_call hr hm htu ht with ht | ⟨c, -, rfl, -⟩
      · exact h me acts tolerant ht
      · exact c.course r

/-! The next act of a call -/

def Task.head? : Task → Option Act
  | .call (a :: _) _ => some a
  | _ => none

theorem view_head {w : Nat} : r.view Task.head? w = some a ↔
    ∃ rest tolerant, r.tasks.get? w = some (.call (a :: rest) tolerant) := by
  rw [view, Option.bind_eq_some_iff]
  constructor
  · rintro ⟨t, ht, ha⟩
    cases t with
    | call acts tolerant =>
      cases acts with
      | nil => cases ha
      | cons b rest =>
        obtain rfl := Option.some.inj ha
        exact ⟨rest, tolerant, ht⟩
    | _ => cases ha
  · rintro ⟨rest, tolerant, ht⟩
    exact ⟨_, ht, rfl⟩

/-- What a call comes to after an act, if not to something else that it was asked for. -/
inductive Follows : Act → Act → Prop
  | sends (d d' : Delivery) : Follows (.deliver d) (.deliver d')
  | cycles (n : Nat) (c c' : Cycle) : Follows (.cycle n c) (.cycle n c')
  | stops (k : Key) (x : Source) : Follows (.removeSource k) (.stopSource x)
  | joins (x : Source) : Follows (.stopSource x) (.joinSource x)
  | awaits (x : Source) (ts : List Nat) : Follows (.joinSource x) (.await ts)
  | forgets (ts : List Nat) (k : Key) : Follows (.await ts) (.forgetDiscovery k)
  | closes (k : Key) (d : Drain) : Follows (.removeDrain k) (.closeDrain d)
  | awaitsWorkers (d : Drain) (ws : List Nat) : Follows (.closeDrain d) (.await ws)
  | shuts (ws : List Nat) (i : Nat) : Follows (.await ws) (.closeSink i)
  | drops (i : Nat) (k : Key) : Follows (.closeSink i) (.forgetCollector k)
  | dropsProbe (d : Drain) (k : Key) : Follows (.closeDrain d) (.forgetCollector k)

theorem head?_ended (h : t.isEnded = true) : t.head? = none := by
  cases t <;> simp_all [Task.isEnded, Task.head?]

theorem head?_requests (h : Requests acts) (ha : (Task.call acts tolerant).head? = some a) :
    a.isRequest = true := by
  cases acts with
  | nil => cases ha
  | cons b rest =>
    obtain rfl := Option.some.inj ha
    exact h b List.mem_cons_self

theorem Undertakes.follows (h : Undertakes tolerant acts t') (ha : t'.head? = some a) :
    a.isRequest = true ∨ ∃ b rest, acts = b :: rest ∧ Follows b a := by
  cases h with
  | «over» he => simp [head?_ended he] at ha
  | requests hr => exact .inl (head?_requests hr ha)
  | source k x hr =>
    obtain rfl := Option.some.inj ha
    exact .inr ⟨_, _, rfl, .stops k x⟩
  | drain k d hr =>
    obtain rfl := Option.some.inj ha
    exact .inr ⟨_, _, rfl, .closes k d⟩

theorem Called.follows (h : Called r me tolerant acts s t') (hc : Course acts) (ha : t'.head? = some a) :
    a.isRequest = true ∨ ∃ b rest, acts = b :: rest ∧ Follows b a := by
  cases hc with
  | requests hr => exact (h.undertakes hr).follows ha
  | delivers d hr =>
    cases h with
    | sends rest hd ht =>
      rcases ht with ⟨d', rfl⟩ | rfl | ht
      · obtain rfl := Option.some.inj ha
        exact .inr ⟨_, _, rfl, .sends d d'⟩
      · exact .inl (head?_requests hr ha)
      · simp [head?_ended ht] at ha
  | cycles n c hr =>
    cases h with
    | cycles rest hn hc ht =>
      rcases ht with ⟨c', rfl⟩ | ht
      · obtain rfl := Option.some.inj ha
        exact .inr ⟨_, _, rfl, .cycles n c c'⟩
      · simp [head?_ended ht] at ha
    | strays => exact .inl (head?_requests hr ha)
  | stops | joins | joined | closed | shuts =>
    cases h
    obtain rfl := Option.some.inj ha
    exact .inr ⟨_, _, rfl, by constructor⟩
  | forgets k hr | drops k hr =>
    cases h
    exact .inl (head?_requests hr ha)
  | closes d k hr =>
    cases h
    refine .inr ⟨_, _, rfl, ?_⟩
    cases d with
    | probe n keeps =>
      rw [closeDrain_probe] at ha
      obtain rfl := Option.some.inj ha
      exact .dropsProbe _ k
    | pool n =>
      cases hp : r.pools.get? n with
      | none =>
        simp only [closeDrain, hp] at ha
        obtain rfl := Option.some.inj ha
        exact .dropsProbe _ k
      | some p =>
        rw [closeDrain_pool hp] at ha
        obtain rfl := Option.some.inj ha
        exact .awaitsWorkers _ _

theorem move_head {w : Nat} (hr : Reachable r) (hm : r.move m = some s) (hw : s.view Task.head? w = some a)
    (ha : a.isRequest = false) : r.view Task.head? w = some a ∨
      (∃ b, m = .turn w ∧ r.view Task.head? w = some b ∧ Follows b a) ∨
      ∃ c, m = .call c ∧ (c.acts r).head? = some a := by
  obtain ⟨rest, tolerant, ht⟩ := view_head.mp hw
  by_cases htu : m = .turn w
  · subst htu
    rcases step_call hr.numbered hm ht with ⟨hne, -⟩ | ⟨acts', s', -, ht', hc, -⟩
    · exact absurd rfl hne
    · rcases hc.follows (hr.course ht') rfl with hreq | ⟨b, rest', rfl, hb⟩
      · simp [ha] at hreq
      · exact .inr (.inl ⟨b, rfl, view_head.mpr ⟨rest', tolerant, ht'⟩, hb⟩)
  · rcases move_call hr hm htu ht with ht | ⟨c, rfl, hacts, -⟩
    · exact .inl (view_head.mpr ⟨rest, tolerant, ht⟩)
    · exact .inr (.inr ⟨c, rfl, by rw [← hacts]; rfl⟩)

end ScrapeRelay.Relay

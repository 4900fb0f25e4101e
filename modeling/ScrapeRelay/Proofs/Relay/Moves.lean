import ScrapeRelay.Relay.Schedule

/-!
What can happen to a relay. Its tasks take turns in any order; whoever uses it makes calls and installs
discoveries and pools, all of them also while others are under way; the cluster, the network and the board
change as they please and time passes.
-/

namespace ScrapeRelay.Relay

inductive Call where
  | send (k : Key) (batch : List Target) (allowed : Option Nat)
  | runOnce (scout : Nat)
  | removeDiscovery (k : Key)
  | removePool (k : Key)
  | shutdown

namespace Call

def acts (r : Relay) : Call → List Act
  | send k batch allowed => r.sendCall k batch allowed
  | runOnce n => [.cycle n .asking]
  | removeDiscovery k => [.removeSource k]
  | removePool k => [.removeDrain k]
  | shutdown => shutdownCall

def isTolerant : Call → Bool
  | shutdown => true
  | _ => false

end Call

inductive Move where
  | turn (task : Nat)
  | call (c : Call)
  | addDiscovery (k : Key) (spec : Discovery.Spec) (connected reports : Bool)
  | addPool (k : Key) (spec : Collector.Spec) (size : Nat) (accepts : Nat → Bool) (every : Option Nat)
  | addProbeSource (k : Key) (collectors : List Key)
  | addProbeDrain (k : Key) (size : Nat) (keeps : Bool)
  | surround (inventory : Cluster.Inventory) (outage : Cluster.Outage) (network : Network) (refusing : Bool)
  | elapse (time : Nat)

def putPool (r : Relay) (k : Key) (spec : Collector.Spec) (size : Nat) (accepts : Nat → Bool)
    (every : Option Nat) : Relay :=
  let (r, sink) := r.addOutlet accepts
  let (r, n) := r.addPool k spec sink every
  r.installDrain k (.pool n) size

def putDiscovery (r : Relay) (k : Key) (spec : Discovery.Spec) (connected reports : Bool) : Relay :=
  let (r, n) := r.addScout k spec connected reports
  r.installSource k (.scout n)

def putProbeSource (r : Relay) (k : Key) (collectors : List Key) : Relay :=
  let (r, n) := r.addProbe
  r.installSource k (.probe n collectors)

def putProbeDrain (r : Relay) (k : Key) (size : Nat) (keeps : Bool) : Relay :=
  let (r, n) := r.addProbe
  r.installDrain k (.probe n keeps) size

/-- The relay after a move; a task that waits has no turn. -/
def move (r : Relay) : Move → Option Relay
  | .turn me => r.step me
  | .call c => some (r.call (c.acts r) c.isTolerant).1
  | .addDiscovery k spec connected reports => some (r.putDiscovery k spec connected reports)
  | .addPool k spec size accepts every => some (r.putPool k spec size accepts every)
  | .addProbeSource k collectors => some (r.putProbeSource k collectors)
  | .addProbeDrain k size keeps => some (r.putProbeDrain k size keeps)
  | .surround inventory outage network refusing => some { r with inventory, outage, network, refusing }
  | .elapse time => some (r.setClock (r.clock + time))

theorem Move.turn_or (m : Move) : (∃ me, m = .turn me) ∨ ∀ me, m ≠ .turn me := by
  cases m with
  | turn me => exact .inl ⟨me, rfl⟩
  | _ => exact .inr (by simp)

inductive Later (r : Relay) : Relay → Prop
  | same : Later r r
  | after {s t : Relay} (m : Move) (h : Later r s) (hm : s.move m = some t) : Later r t

def Reachable (r : Relay) : Prop :=
  ∃ inventory network reportEvery, Later (start inventory network reportEvery) r

theorem Later.trans {r s t : Relay} (h : Later r s) (ht : Later s t) : Later r t := by
  induction ht with
  | same => exact h
  | after m _ hm ih => exact .after m ih hm

theorem Reachable.later {r s : Relay} (hr : Reachable r) (h : Later r s) : Reachable s := by
  obtain ⟨inventory, network, reportEvery, hs⟩ := hr
  exact ⟨inventory, network, reportEvery, hs.trans h⟩

theorem Later.keeps {P : Relay → Prop} (hstep : ∀ r m s, Reachable r → P r → r.move m = some s → P s)
    {r s : Relay} (h : Later r s) (hr : Reachable r) (hp : P r) : P s := by
  induction h with
  | same => exact hp
  | after m hl hm ih => exact hstep _ m _ (hr.later hl) ih hm

theorem Reachable.holds {P : Relay → Prop}
    (hstart : ∀ inventory network every, P (start inventory network every))
    (hstep : ∀ r m s, Reachable r → P r → r.move m = some s → P s) {r : Relay}
    (h : Reachable r) : P r := by
  obtain ⟨inventory, network, every, hl⟩ := h
  exact hl.keeps hstep ⟨inventory, network, every, .same⟩ (hstart inventory network every)

def replay (r : Relay) : List Move → Option Relay
  | [] => some r
  | m :: rest => (r.move m).bind fun r => replay r rest

theorem replay_later {r s : Relay} {ms : List Move} (h : r.replay ms = some s) : Later r s := by
  induction ms generalizing r with
  | nil =>
    obtain rfl := Option.some.inj h
    exact .same
  | cons m rest ih =>
    obtain ⟨t, hm, ht⟩ := Option.bind_eq_some_iff.mp h
    exact Later.trans (.after m .same hm) (ih ht)

theorem replay_keeps_by {P : Relay → Prop} {Q : Move → Prop}
    (hmove : ∀ r m s, P r → Q m → r.move m = some s → P s)
    {r s : Relay} {ms : List Move} (hq : ∀ m ∈ ms, Q m) (h : r.replay ms = some s) (hr : P r) : P s := by
  induction ms generalizing r with
  | nil =>
    obtain rfl := Option.some.inj h
    exact hr
  | cons m rest ih =>
    obtain ⟨t, hm, ht⟩ := Option.bind_eq_some_iff.mp h
    obtain ⟨hqm, hq⟩ := List.forall_mem_cons.mp hq
    exact ih hq ht (hmove r m t hr hqm hm)

theorem replay_keeps {P : Relay → Prop} (hmove : ∀ r m s, P r → r.move m = some s → P s) {r s : Relay}
    {ms : List Move} (h : r.replay ms = some s) (hr : P r) : P s :=
  replay_keeps_by (Q := fun _ => True) (fun r m s hr _ => hmove r m s hr) (fun _ _ => trivial) h hr

theorem replay_append (r : Relay) (ms ms' : List Move) :
    r.replay (ms ++ ms') = (r.replay ms).bind (·.replay ms') := by
  induction ms generalizing r with
  | nil => rfl
  | cons m ms ih =>
    rw [List.cons_append, replay, replay, Option.bind_assoc]
    congr 1
    funext s
    exact ih s

theorem replay_concat (r : Relay) (ms : List Move) (m : Move) :
    r.replay (ms ++ [m]) = (r.replay ms).bind (·.move m) := by
  simp [replay_append, replay]

end ScrapeRelay.Relay

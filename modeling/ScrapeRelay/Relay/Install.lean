import ScrapeRelay.Collector.Scraper
import ScrapeRelay.Relay.Step
import ScrapeRelay.Sink.Publisher

/-!
Installing discoveries and pools. Under one key there is at most one of a kind: a new one stops the old
one before it starts. The channel of a pool is made for the first pool under its key and stays for those
that follow. A resource that is not in order is refused, and nothing has happened then.
-/

namespace ScrapeRelay.Relay

/-! Making -/

def addChannel (r : Relay) (size : Nat) : Relay × Nat :=
  ({ r.setChannel r.fresh (.ofBuffer size) with fresh := r.fresh + 1 }, r.fresh)

def addOutlet (r : Relay) (accepts : Nat → Bool) : Relay × Nat :=
  ({ r with outlets := r.outlets.insert r.fresh ⟨accepts, 0⟩, fresh := r.fresh + 1 }, r.fresh)

def addScout (r : Relay) (key : Key) (spec : Discovery.Spec) (connected reports : Bool) : Relay × Nat :=
  let s : Scout := ⟨key, spec, connected, reports, false, false, none, [], none, none⟩
  ({ r.setScout r.fresh s with fresh := r.fresh + 1 }, r.fresh)

def addPool (r : Relay) (key : Key) (spec : Collector.Spec) (sink : Nat) (reportEvery : Option Nat) :
    Relay × Nat :=
  let every := reportEvery.map (max shortestInterval)
  let p : Pool := ⟨key, .ofSpec spec, max 1 spec.workers, sink, every, .zero, false, [], none⟩
  ({ r.setPool r.fresh p with fresh := r.fresh + 1 }, r.fresh)

def addProbe (r : Relay) : Relay × Nat := ({ r with fresh := r.fresh + 1 }, r.fresh)

/-! Starting and stopping -/

/-- An enabled discovery starts with a cycle at once, a disabled one only says that it does not run. -/
def startSource (r : Relay) : Source → Relay
  | .probe n _ => r.record (.started (.probe n))
  | .scout n =>
    match r.scouts.get? n with
    | none => r
    | some s =>
      let r := r.record (.started (.scout n))
      if s.spec.enabled then (r.setScout n { s with loop := some r.fresh }).spawn (.loop n r.clock .resting)
      else (r.setScout n { s with announcement := some r.fresh }).spawn (.announcement n)

def spawnAll (r : Relay) (tasks : List Task) : Relay := tasks.foldl spawn r

def startReporter (r : Relay) (n : Nat) (p : Pool) : Relay :=
  if p.reportEvery.isSome then
    (r.setPool n { p with reporter := some r.fresh }).spawn (.reporter n false r.clock .sleeping)
  else r

def startDrain (r : Relay) (channel : Nat) : Drain → Relay
  | .probe n _ =>
    let r := r.record (.started (.probe n))
    { r with probes := r.probes.insert n channel }
  | .pool n =>
    match r.pools.get? n with
    | none => r
    | some p =>
      let r := r.record (.started (.pool n))
      let p := { p with workers := p.workers ++ List.range' r.fresh p.size }
      ((r.setPool n p).spawnAll (List.replicate p.size (.worker n channel .idle))).startReporter n p

/-- The workers of a pool that is stopped leave what they have not taken; the sink is closed when they have
gone. -/
def stopDrain (r : Relay) : Drain → Relay
  | .probe n _ =>
    let r := r.record (.stopped (.probe n))
    { r with probes := r.probes.erase n }
  | .pool n =>
    match r.pools.get? n with
    | none => r
    | some p =>
      if p.stopped then r
      else
        let r := (r.abortReporter p).setPool n { p with stopped := true, workers := [], reporter := none }
        (r.record (.stopped (.pool n))).spawn (.retirement p.sink p.workers)

def dropScout (r : Relay) (n : Nat) : Relay :=
  match r.scouts.get? n with
  | some s => r.setScout n { s with dropped := true }
  | none => r

/-! Installing -/

def installSource (r : Relay) (k : Key) (s : Source) : Relay :=
  let r :=
    match r.registry.sources.get? k with
    | some old => r.stopSource old
    | none => r
  let r := r.startSource s
  { r with registry := { r.registry with sources := r.registry.sources.insert k s } }

/-- The channel under a key; the first pool there has it made, with room for so many targets. -/
def openChannel (r : Relay) (k : Key) (size : Nat) : Relay × Nat :=
  match r.registry.channels.get? k with
  | some c => (r, c)
  | none =>
    let (r, c) := r.addChannel size
    ({ r with registry := { r.registry with channels := r.registry.channels.insert k c } }, c)

def installDrain (r : Relay) (k : Key) (d : Drain) (size : Nat) : Relay :=
  let (r, c) := r.openChannel k size
  let r :=
    match r.registry.drains.get? k with
    | some old => r.stopDrain old
    | none => r
  let r := r.startDrain c d
  { r with registry := { r.registry with drains := r.registry.drains.insert k d } }

/-! What can fail on the way -/

/-- One thing after the other is done to a relay. What was done before a failure stays done. -/
abbrev Manage := EStateM Failure Relay

def require (e : Except Failure Unit) : Manage Unit := fun r =>
  match e with
  | .ok _ => .ok () r
  | .error f => .error f r

def make (add : Relay → Relay × Nat) : Manage Nat := fun r => .ok (add r).2 (add r).1

def setUpDiscovery (k : Key) (spec : Discovery.Spec) : Manage Unit := do
  require spec.validate
  let n ← make fun r => r.addScout k spec true r.reportEvery.isSome
  modify fun r => r.installSource k (.scout n)

def setUpPool (prepare : Option Collector.Tls → Except Failure Unit) (k : Key) (spec : Collector.Spec)
    (sink : Nat) : Manage Unit := do
  require (prepare spec.tls)
  let n ← make fun r => r.addPool k spec sink r.reportEvery
  modify fun r => r.installDrain k (.pool n) spec.bufferSize

def setUpPoolWith (prepare : Option Collector.Tls → Except Failure Unit) (k : Key) (spec : Collector.Spec)
    (sink : Nat) : Manage Unit := do
  require spec.validate
  setUpPool prepare k spec sink

def setUpPoolOut (connect : Collector.Destination → Except Failure Unit)
    (prepare : Option Collector.Tls → Except Failure Unit) (k : Key) (spec : Collector.Spec) : Manage Unit := do
  require spec.validate
  require (connect spec.output.destination)
  let sink ← make fun r => r.addOutlet fun _ => true
  setUpPool prepare k spec sink

def outcome (r : Relay) (act : Manage Unit) : Except Failure Relay :=
  match act r with
  | .ok _ s => .ok s
  | .error f _ => .error f

def connect (reachable : String → Bool) : Collector.Destination → Except Failure Unit
  | .stdout => .ok ()
  | .nats b => (Sink.Publisher.connect (.unconnected b) reachable).map fun _ => ()

/-- What a pool needs from outside: its output connected, its scraping side set up. -/
structure Means where
  connect : Collector.Destination → Except Failure Unit
  prepare : Option Collector.Tls → Except Failure Unit

def Means.of (kit : Collector.Kit) (reachable : String → Bool) : Means :=
  ⟨Relay.connect reachable, Collector.prepareScraper kit⟩

def installDiscovery (r : Relay) (k : Key) (spec : Discovery.Spec) : Except Failure Relay :=
  r.outcome (setUpDiscovery k spec)

def installPoolWith (r : Relay) (kit : Collector.Kit) (k : Key) (spec : Collector.Spec) (sink : Nat) :
    Except Failure Relay :=
  r.outcome (setUpPoolWith (Collector.prepareScraper kit) k spec sink)

def installPool (r : Relay) (m : Means) (k : Key) (spec : Collector.Spec) : Except Failure Relay :=
  r.outcome (setUpPoolOut m.connect m.prepare k spec)

def installPoolOut (r : Relay) (kit : Collector.Kit) (reachable : String → Bool) (k : Key)
    (spec : Collector.Spec) : Except Failure Relay :=
  r.installPool (.of kit reachable) k spec

/-! Pools and discoveries in other hands -/

/-- A pool with a channel of its own, both of whose ends are held outside. -/
def addFreePool (r : Relay) (kit : Collector.Kit) (k : Key) (spec : Collector.Spec) (every : Option Nat) :
    Except Failure (Relay × Nat × Nat) := do
  Collector.prepareScraper kit spec.tls
  let (r, sink) := r.addOutlet fun _ => true
  let (r, n) := r.addPool k spec sink every
  let (r, c) := r.addChannel spec.bufferSize
  pure ({ r with senders := c :: r.senders, receivers := c :: r.receivers }, n, c)

def dropSender (r : Relay) (channel : Nat) : Relay := { r with senders := r.senders.erase channel }

def dropReceiver (r : Relay) (channel : Nat) : Relay := { r with receivers := r.receivers.erase channel }

def offerAll (r : Relay) (channel : Nat) : List Target → Relay × Nat
  | [] => (r, 0)
  | t :: rest =>
    match r.offer? channel none t with
    | some r =>
      let (r, n) := offerAll r channel rest
      (r, n + 1)
    | none => (r, 0)

def targetsOf (r : Relay) (scout : Nat) : List Target :=
  ((r.scouts.get? scout).map fun s => s.spec.scan r.inventory r.outage).getD []

def isRunning (r : Relay) (scout : Nat) : Bool :=
  ((r.scouts.get? scout).bind (·.loop)).any fun t => !r.hasEnded t

def runningWorkers (r : Relay) (p : Pool) : Nat := p.workers.countP fun t => !r.hasEnded t

/-! Calls -/

def sendCall (r : Relay) (k : Key) (batch : List Target) (allowed : Option Nat) : List Act :=
  [.deliver (.start k batch (allowed.map fun n => ⟨n, r.clock + n⟩))]

def shutdownCall : List Act := [.removeSources, .removeDrains]

def call (r : Relay) (acts : List Act) (tolerant : Bool) : Relay × Nat :=
  (r.spawn (.call acts tolerant), r.fresh)

/-- Gives a call up where it stands. What it did stays done, what it held is let go. -/
def abandon (r : Relay) (me : Nat) : Relay :=
  let r :=
    match r.tasks.get? me with
    | some (.call (.deliver d :: _) _) => (d.channel?.map (r.withdraw me)).getD r
    | some (.call (.cycle n c :: _) _) => ((r.scouts.get? n).map fun s => r.giveUp me n s c).getD r
    | _ => r
  { r with tasks := r.tasks.erase me }

end ScrapeRelay.Relay

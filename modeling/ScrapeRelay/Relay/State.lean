import ScrapeRelay.Cluster.Inventory
import ScrapeRelay.Discovery.Spec
import ScrapeRelay.Relay.Task
import ScrapeRelay.Status.Board

/-!
The state of a relay: the cluster and the network around it, its clock, the registry of discoveries and
pools with their channels, the tasks that run and the board that they report to. Everything that others
could notice is in the journal.
-/

namespace ScrapeRelay

namespace Relay

structure Scout where
  key : Key
  spec : Discovery.Spec
  /-- Whether there is a registry to deliver to. -/
  connected : Bool
  reports : Bool
  stopped : Bool
  dropped : Bool
  /-- The task whose cycle has the lock, and those in line for it. -/
  holder : Option Nat
  line : List Nat
  loop : Option Nat
  announcement : Option Nat
  deriving DecidableEq

def Scout.collectors (s : Scout) : List Key := s.spec.collectorKeys s.key.namespace

structure Pool where
  key : Key
  pipeline : Collector.Pipeline
  size : Nat
  sink : Nat
  reportEvery : Option Nat
  status : Collector.Status
  stopped : Bool
  /-- The workers whose end nobody waits for yet. -/
  workers : List Nat
  reporter : Option Nat
  deriving DecidableEq

/-- A sink takes or refuses the payloads that it is offered, each by its number. -/
structure Outlet where
  accepts : Nat → Bool
  offered : Nat

structure Registry where
  sources : Dict Key Source
  drains : Dict Key Drain
  channels : Dict Key Nat
  deriving DecidableEq

inductive Member where
  | scout (scout : Nat)
  | pool (pool : Nat)
  | probe (probe : Nat)
  deriving DecidableEq, Repr

inductive Event where
  /-- A target entered the queue of a channel; `task?` is the task that brought it. -/
  | entered (channel : Nat) (task? : Option Nat) (t : Target)
  | taken (channel : Nat) (task? : Option Nat) (t : Target)
  | handled (worker : Nat) (t : Target)
  | offered (sink worker : Nat) (payload : String) (accepted : Bool)
  | sinkClosed (sink : Nat)
  | started (m : Member)
  | stopped (m : Member)
  | closed (m : Member)
  | began (scout task : Nat)
  | discoveryStatus (k : Key) (s : Discovery.Status)
  | collectorStatus (k : Key) (s : Collector.Status)
  | discoveryForgotten (k : Key)
  | collectorForgotten (k : Key)
  deriving DecidableEq

end Relay

open Relay in
structure Relay where
  inventory : Cluster.Inventory
  outage : Cluster.Outage
  network : Network
  /-- In milliseconds. -/
  clock : Nat
  board : Status.Board
  refusing : Bool
  /-- Milliseconds between the reports of an installed pool, if installed resources report at all. -/
  reportEvery : Option Nat
  registry : Registry
  channels : Dict Nat Channel
  scouts : Dict Nat Scout
  pools : Dict Nat Pool
  outlets : Dict Nat Outlet
  /-- The channels whose receiving end a probe holds. -/
  probes : Dict Nat Nat
  /-- The channels with an end in other hands. -/
  senders : List Nat
  receivers : List Nat
  tasks : Dict Nat Task
  /-- Above all numbers of tasks, channels, scouts, pools, sinks and probes in use. -/
  fresh : Nat
  /-- What happened, the latest first. -/
  journal : List Event

namespace Relay

def Registry.empty : Registry := ⟨.empty, .empty, .empty⟩

def usualInterval : Nat := 10000

def shortestInterval : Nat := 10

def start (inventory : Cluster.Inventory) (network : Network) (reportEvery : Option Nat) : Relay where
  inventory
  outage := .none
  network
  clock := 0
  board := .empty
  refusing := false
  reportEvery := reportEvery.map (max shortestInterval)
  registry := .empty
  channels := .empty
  scouts := .empty
  pools := .empty
  outlets := .empty
  probes := .empty
  senders := []
  receivers := []
  tasks := .empty
  fresh := 0
  journal := []

def now (r : Relay) : Timestamp := ⟨r.clock / 1000, r.clock % 1000 * 1000000⟩

def record (r : Relay) (e : Event) : Relay := { r with journal := e :: r.journal }

/-! Tasks -/

def setTask (r : Relay) (n : Nat) (t : Task) : Relay := { r with tasks := r.tasks.insert n t }

def spawn (r : Relay) (t : Task) : Relay := { r.setTask r.fresh t with fresh := r.fresh + 1 }

def hasEnded (r : Relay) (n : Nat) : Bool :=
  match r.tasks.get? n with
  | some t => t.isEnded
  | none => true

/-! Channels -/

def channel (r : Relay) (n : Nat) : Channel := r.channels.getD n (.ofBuffer 0)

def setChannel (r : Relay) (n : Nat) (c : Channel) : Relay := { r with channels := r.channels.insert n c }

def hasSender (r : Relay) (n : Nat) : Bool :=
  r.senders.contains n || r.registry.channels.values.contains n || r.tasks.values.any (·.sendsTo n)

def hasReceiver (r : Relay) (n : Nat) : Bool :=
  r.receivers.contains n || r.registry.channels.values.contains n || r.probes.values.contains n ||
    r.tasks.values.any (·.receivesFrom n)

def offer? (r : Relay) (n : Nat) (sender : Option Nat) (t : Target) : Option Relay :=
  ((r.channel n).offer? t).map fun c => (r.setChannel n c).record (.entered n sender t)

def take? (r : Relay) (n : Nat) (taker : Option Nat) : Option (Target × Relay) :=
  let c := r.channel n
  c.next?.map fun t =>
    let entered := c.admitted.foldl (fun (r : Relay) b => r.record (.entered n (some b.1) b.2)) r
    (t, (entered.setChannel n c.take).record (.taken n taker t))

/-! The board -/

def reportDiscovery (r : Relay) (k : Key) (s : Discovery.Status) : Relay :=
  let r := r.record (.discoveryStatus k s)
  if r.refusing then r else { r with board := r.board.updateDiscovery k s }

def reportCollector (r : Relay) (k : Key) (s : Collector.Status) : Relay :=
  let r := r.record (.collectorStatus k s)
  if r.refusing then r else { r with board := r.board.updateCollector k s }

def forgetDiscovery (r : Relay) (k : Key) : Relay :=
  { r.record (.discoveryForgotten k) with board := r.board.forgetDiscovery k }

def forgetCollector (r : Relay) (k : Key) : Relay :=
  { r.record (.collectorForgotten k) with board := r.board.forgetCollector k }

/-! What the registry tells -/

def inFlight (r : Relay) (k : Key) : Except Failure Nat :=
  match r.registry.channels.get? k with
  | some n => .ok (r.channel n).depth
  | none => .error (.notFound s!"channel for collector {k}")

def capacity? (r : Relay) (k : Key) : Option Nat :=
  (r.registry.channels.get? k).map fun n => (r.channel n).capacity

def sourceCollectors (r : Relay) : Source → List Key
  | .scout n => ((r.scouts.get? n).map (·.collectors)).getD []
  | .probe _ collectors => collectors

def registered (r : Relay) (k : Key) : Nat :=
  r.registry.sources.values.countP fun s => (r.sourceCollectors s).contains k

end Relay

end ScrapeRelay

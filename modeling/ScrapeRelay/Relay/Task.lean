import ScrapeRelay.Collector.Pipeline
import ScrapeRelay.Discovery.Status
import ScrapeRelay.Relay.Cycle

/-!
What runs in a relay: the workers and the reporter of a pool, the loop of a discovery, and the calls of
those who use the relay. Tasks take turns; a task holds all that it has to remember between its turns.
-/

namespace ScrapeRelay.Relay

/-- A discovery under a key: one of the relay's own or a probe with its collectors. -/
inductive Source where
  | scout (scout : Nat)
  | probe (probe : Nat) (collectors : List Key)
  deriving DecidableEq, Repr

/-- What takes targets from a channel: a pool, or a probe that may keep its end when it is closed. -/
inductive Drain where
  | pool (pool : Nat)
  | probe (probe : Nat) (keeps : Bool)
  deriving DecidableEq, Repr

inductive Worker where
  | idle
  | waiting
  | holding (t : Target)
  | shipping (t : Target) (rest : List Metric)
  deriving DecidableEq

inductive Reporter where
  | sleeping
  | counting
  | measuring (registered : Nat)
  | summing (registered inFlight : Nat)
  | writing (status : Collector.Status)
  deriving DecidableEq

inductive Loop where
  | resting
  | cycling (c : Cycle)
  deriving DecidableEq

inductive Act where
  | deliver (d : Delivery)
  | cycle (scout : Nat) (c : Cycle)
  | sleep (due : Nat)
  | await (tasks : List Nat)
  | removeSource (k : Key)
  | stopSource (s : Source)
  | joinSource (s : Source)
  | forgetDiscovery (k : Key)
  | removeDrain (k : Key)
  | closeDrain (d : Drain)
  | closeSink (sink : Nat)
  | forgetCollector (k : Key)
  | removeSources
  | removeDrains
  deriving DecidableEq

abbrev Outcome := Except Failure (Option Discovery.Status)

inductive Task where
  | worker (pool channel : Nat) (w : Worker)
  /-- `next` is the time of the next report. An abort is heeded when the reporter sleeps. -/
  | reporter (pool : Nat) (aborted : Bool) (next : Nat) (stage : Reporter)
  /-- Waits for the workers of a pool that was replaced, then closes its sink. -/
  | retirement (sink : Nat) (workers : List Nat)
  | loop (scout due : Nat) (stage : Loop)
  | announcement (scout : Nat)
  /-- A tolerant call goes on after a part that failed. -/
  | call (acts : List Act) (tolerant : Bool)
  | ended (o : Outcome)

namespace Task

def isEnded : Task → Bool
  | ended _ => true
  | _ => false

def delivery? : Task → Option Delivery
  | call (.deliver d :: _) _ => some d
  | call (.cycle _ c :: _) _ => c.delivery?
  | loop _ _ (.cycling c) => c.delivery?
  | _ => none

def sendsTo (t : Task) (channel : Nat) : Bool := (t.delivery?.bind (·.channel?)) == some channel

def receivesFrom (t : Task) (channel : Nat) : Bool :=
  match t with
  | worker _ c _ => c == channel
  | _ => false

def due? : Task → Option Nat
  | reporter _ _ next .sleeping => some next
  | loop _ due .resting => some due
  | call (.sleep due :: _) _ => some due
  | t => t.delivery?.bind (·.due?)

end Task

end ScrapeRelay.Relay

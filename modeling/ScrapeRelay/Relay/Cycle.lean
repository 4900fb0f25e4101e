import ScrapeRelay.Relay.Channel

/-!
Deliveries and cycles. A delivery brings a batch of targets into the channel of a collector, one after the
other. A cycle of a discovery scans the cluster and makes one delivery for each collector that is ready.
Both say here how far they have come; what they do next is a step of the relay.
-/

namespace ScrapeRelay.Relay

/-- A time allowed, in milliseconds, and the moment it ends. -/
structure Limit where
  allowed : Nat
  due : Nat
  deriving DecidableEq, Repr

inductive Delivery.Stage where
  | unaddressed
  | pushing (channel : Nat)
  | stuck (channel : Nat)
  deriving DecidableEq, Repr

structure Delivery where
  key : Key
  /-- The targets that the channel was not offered yet. -/
  rest : List Target
  limit : Option Limit
  stage : Delivery.Stage
  deriving DecidableEq

namespace Delivery

def start (key : Key) (batch : List Target) (limit : Option Limit) : Delivery :=
  ⟨key, batch, limit, .unaddressed⟩

def channel? (d : Delivery) : Option Nat :=
  match d.stage with
  | .unaddressed => none
  | .pushing c | .stuck c => some c

def isStuck (d : Delivery) : Bool :=
  match d.stage with
  | .stuck _ => true
  | _ => false

def due? (d : Delivery) : Option Nat := if d.isStuck then d.limit.map (·.due) else none

end Delivery

structure Tally where
  ready : Nat
  inFlight : Nat
  deriving DecidableEq, Repr

inductive Cycle where
  | asking
  | queued
  | scanning
  | choosing (batch : List Target) (rest : List Key) (tally : Tally)
  | delivering (batch : List Target) (d : Delivery) (rest : List Key) (tally : Tally)
  | measuring (batch : List Target) (key : Key) (rest : List Key) (tally : Tally)
  | reporting (found : Nat) (tally : Tally)
  deriving DecidableEq

namespace Cycle

def delivery? : Cycle → Option Delivery
  | delivering _ d _ _ => some d
  | _ => none

end Cycle

end ScrapeRelay.Relay

import ScrapeRelay.Discovery.Scan
import ScrapeRelay.Relay.State
import ScrapeRelay.Text.Duration

/-!
The steps of deliveries and of cycles. A step that yields nothing means that the task has to wait.
-/

namespace ScrapeRelay.Relay

inductive Delivery.Progress where
  | going (d : Delivery)
  | over (result : Except Failure Unit)

def unknownChannel (k : Key) : Failure := .notFound s!"channel for collector {k}"

def closedChannel (k : Key) : Failure := .notFound s!"channel for collector {k} closed"

def lateDelivery (k : Key) (l : Limit) : Failure :=
  .sink s!"collector {k} did not accept targets within {Text.duration l.allowed}"

def push (r : Relay) (me : Nat) (d : Delivery) (c : Nat) : Relay × Delivery.Progress :=
  match d.rest with
  | [] => (r, .over (.ok ()))
  | t :: rest =>
    if r.hasReceiver c then
      match r.offer? c (some me) t with
      | some r => (r, .going { d with rest })
      | none => (r.setChannel c ((r.channel c).block me t), .going { d with rest, stage := .stuck c })
    else (r, .over (.error (closedChannel d.key)))

def withdraw (r : Relay) (me : Nat) (c : Nat) : Relay := r.setChannel c ((r.channel c).withdraw me)

def resume (r : Relay) (me : Nat) (d : Delivery) (c : Nat) : Option (Relay × Delivery.Progress) :=
  if !(r.channel c).isBlocked me then some (r, .going { d with stage := .pushing c })
  else if !r.hasReceiver c then some (r.withdraw me c, .over (.error (closedChannel d.key)))
  else
    match d.limit with
    | some l =>
      if l.due ≤ r.clock then some (r.withdraw me c, .over (.error (lateDelivery d.key l))) else none
    | none => none

def deliver (r : Relay) (me : Nat) (d : Delivery) : Option (Relay × Delivery.Progress) :=
  match d.stage with
  | .unaddressed =>
    match r.registry.channels.get? d.key with
    | some c => some (r, .going { d with stage := .pushing c })
    | none => some (r, .over (.error (unknownChannel d.key)))
  | .pushing c => some (r.push me d c)
  | .stuck c => r.resume me d c

/-! Cycles -/

inductive Cycle.Progress where
  | going (c : Cycle)
  | over (status : Discovery.Status)

def setScout (r : Relay) (n : Nat) (s : Scout) : Relay := { r with scouts := r.scouts.insert n s }

def ask (r : Relay) (me : Nat) (n : Nat) (s : Scout) : Relay × Cycle :=
  match s.holder with
  | none => ((r.setScout n { s with holder := some me }).record (.began n me), .scanning)
  | some _ => (r.setScout n { s with line := s.line ++ [me] }, .queued)

def passOn (r : Relay) (n : Nat) (s : Scout) : Relay :=
  match s.line with
  | [] => r.setScout n { s with holder := none }
  | next :: line => (r.setScout n { s with holder := some next, line }).record (.began n next)

def choose (r : Relay) (s : Scout) (batch : List Target) (k : Key) (rest : List Key) (tally : Tally) :
    Cycle :=
  match r.inventory.getCollector r.outage k with
  | .ok (some spec) =>
    if spec.enabled then
      let limit := s.spec.sendTimeoutSeconds.map fun n => ⟨n * 1000, r.clock + n * 1000⟩
      .delivering batch (.start k batch limit) rest { tally with ready := tally.ready + 1 }
    else .choosing batch rest tally
  | _ => .choosing batch rest tally

def writeStatus (r : Relay) (s : Scout) (status : Discovery.Status) : Relay :=
  if s.reports && !s.stopped then r.reportDiscovery s.key status else r

def cycleStatus (r : Relay) (s : Scout) (found : Nat) (tally : Tally) : Discovery.Status where
  active := true
  lastDiscovered := some r.now
  readyCollectors := .ofNat tally.ready
  totalCollectors := .ofNat s.collectors.length
  discoveredResources := .ofNat found
  inFlight := .ofNat tally.inFlight

def cycle (r : Relay) (me : Nat) (n : Nat) (s : Scout) : Cycle → Option (Relay × Cycle.Progress)
  | .asking => some ((r.ask me n s).1, .going (r.ask me n s).2)
  | .queued => if s.holder = some me then some (r, .going .scanning) else none
  | .scanning =>
    let batch := s.spec.scan r.inventory r.outage
    let next := if s.connected then .choosing batch s.collectors ⟨0, 0⟩ else .reporting batch.length ⟨0, 0⟩
    some (r, .going next)
  | .choosing batch [] tally => some (r, .going (.reporting batch.length tally))
  | .choosing batch (k :: rest) tally => some (r, .going (r.choose s batch k rest tally))
  | .delivering batch d rest tally =>
    (r.deliver me d).map fun (r, p) =>
      match p with
      | .going d => (r, .going (.delivering batch d rest tally))
      | .over _ => (r, .going (.measuring batch d.key rest tally))
  | .measuring batch k rest tally =>
    let depth := (r.inFlight k).toOption.getD 0
    some (r, .going (.choosing batch rest { tally with inFlight := tally.inFlight + depth }))
  | .reporting found tally =>
    let status := r.cycleStatus s found tally
    some ((r.writeStatus s status).passOn n s, .over status)

/-- A cycle that is given up: it leaves the line it stands in and lets go of the lock. -/
def giveUp (r : Relay) (me : Nat) (n : Nat) (s : Scout) (c : Cycle) : Relay :=
  let r :=
    match c.delivery?.bind (·.channel?) with
    | some channel => r.withdraw me channel
    | none => r
  if s.holder = some me then r.passOn n s else r.setScout n { s with line := s.line.filter (· != me) }

end ScrapeRelay.Relay

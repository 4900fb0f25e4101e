import ScrapeRelay.Relay.Delivering

/-!
The steps of a relay: one turn of one task. Whatever order the tasks take their turns in, a run of the
relay is a sequence of such steps.
-/

namespace ScrapeRelay.Relay

def setPool (r : Relay) (n : Nat) (p : Pool) : Relay := { r with pools := r.pools.insert n p }

def setStatus (r : Relay) (n : Nat) (p : Pool) (s : Collector.Status) : Relay :=
  r.setPool n { p with status := s }

def finished : Task := .ended (.ok none)

/-! Workers -/

def offerPayload (r : Relay) (me sink : Nat) (payload : String) : Relay × Bool :=
  let o := r.outlets.getD sink ⟨fun _ => true, 0⟩
  let accepted := o.accepts o.offered
  let r := { r with outlets := r.outlets.insert sink { o with offered := o.offered + 1 } }
  (r.record (.offered sink me payload accepted), accepted)

def ship (r : Relay) (me n : Nat) (p : Pool) (m : Metric) : Relay :=
  match p.pipeline.fate m with
  | .filtered _ => r.setStatus n p p.status.countFiltered
  | .refused _ => r.setStatus n p p.status.countError
  | .payload text =>
    let (r, accepted) := r.offerPayload me p.sink text
    r.setStatus n p (if accepted then p.status.countSent else p.status.countError)

def leaveLine (r : Relay) (me : Nat) (c : Nat) : Relay := r.setChannel c ((r.channel c).leave me)

/-- A worker looks for a target; without one it stands in line, unless none can come any more. -/
def look (r : Relay) (me : Nat) (n c : Nat) (inLine : Bool) : Relay × Task :=
  match r.take? c (some me) with
  | some (t, r) => (if inLine then r.leaveLine me c else r, .worker n c (.holding t))
  | none =>
    if r.hasSender c then
      let r := if (r.channel c).isWaiting me then r else r.setChannel c ((r.channel c).await me)
      (r, .worker n c .waiting)
    else (if inLine then r.leaveLine me c else r, finished)

def work (r : Relay) (me : Nat) (n c : Nat) (p : Pool) : Worker → Option (Relay × Task)
  | .idle => some (if p.stopped then (r, finished) else r.look me n c false)
  | .waiting =>
    if p.stopped then some (r.leaveLine me c, finished)
    else if (r.channel c).isWaiting me && r.hasSender c then none
    else some (r.look me n c true)
  | .holding t =>
    match p.pipeline.scrape r.network r.now t with
    | .ok metrics => some (r, .worker n c (.shipping t metrics))
    | .error _ => some ((r.setStatus n p p.status.countError).record (.handled me t), .worker n c .idle)
  | .shipping t [] => some (r.record (.handled me t), .worker n c .idle)
  | .shipping t (m :: rest) => some (r.ship me n p m, .worker n c (.shipping t rest))

/-! Reporters -/

/-- The time between reports also when one is late: the reports left out are made up for. -/
def report (r : Relay) (n : Nat) (p : Pool) (aborted : Bool) (next : Nat) : Reporter → Option (Relay × Task)
  | .sleeping =>
    if aborted then some (r, finished)
    else if next ≤ r.clock then
      some (r, .reporter n aborted (next + p.reportEvery.getD usualInterval) .counting)
    else none
  | .counting => some (r, .reporter n aborted next (.measuring (r.registered p.key)))
  | .measuring registered =>
    some (r, .reporter n aborted next (.summing registered ((r.inFlight p.key).toOption.getD 0)))
  | .summing registered inFlight =>
    let s := { p.status with registeredDiscoveries := .ofNat registered, inFlight := .ofNat inFlight }
    some (r.setStatus n p s, .reporter n aborted next (.writing s))
  | .writing s => some (r.reportCollector p.key s, .reporter n aborted next .sleeping)

/-! Loops -/

/-- A cycle that begins this much late does not count as late. -/
def slack : Nat := 5

def nextDue (s : Scout) (due now : Nat) : Nat :=
  let period := max 1 s.spec.intervalSeconds * 1000
  if due + slack < now then now + period else due + period

def loopStep (r : Relay) (me : Nat) (n due : Nat) (s : Scout) : Loop → Option (Relay × Task)
  | .resting =>
    if s.stopped || s.dropped then some (r, finished)
    else if due ≤ r.clock then some (r, .loop n (nextDue s due r.clock) (.cycling .asking))
    else none
  | .cycling c =>
    (r.cycle me n s c).map fun (r, p) =>
      match p with
      | .going c => (r, .loop n due (.cycling c))
      | .over _ => (r, .loop n due .resting)

/-! Calls -/

inductive Act.Progress where
  | going (acts : List Act)
  | answer (status : Discovery.Status)
  | failed (f : Failure)

def abortReporter (r : Relay) (p : Pool) : Relay :=
  match p.reporter.bind fun t => (r.tasks.get? t).map (t, ·) with
  | some (t, .reporter n _ next stage) => r.setTask t (.reporter n true next stage)
  | _ => r

/-- Raises the stop sign of a discovery; it counts once. -/
def stopSource (r : Relay) : Source → Relay
  | .probe n _ => r.record (.stopped (.probe n))
  | .scout n =>
    match r.scouts.get? n with
    | some s =>
      if s.stopped then r else (r.setScout n { s with stopped := true }).record (.stopped (.scout n))
    | none => r

def joinSource (r : Relay) : Source → Relay × List Nat
  | .probe .. => (r, [])
  | .scout n =>
    match r.scouts.get? n with
    | some s =>
      (r.setScout n { s with loop := none, announcement := none }, s.loop.toList ++ s.announcement.toList)
    | none => (r, [])

def closeDrain (r : Relay) : Drain → Relay × List Act
  | .probe n keeps =>
    let r := r.record (.closed (.probe n))
    (if keeps then r else { r with probes := r.probes.erase n }, [])
  | .pool n =>
    match r.pools.get? n with
    | some p =>
      let r := (r.abortReporter p).setPool n { p with workers := [], reporter := none }
      (r.record (.closed (.pool n)), [.await p.workers, .closeSink p.sink])
    | none => (r, [])

def removeSource (r : Relay) (k : Key) : Relay × Act.Progress :=
  match r.registry.sources.get? k with
  | some s =>
    ({ r with registry := { r.registry with sources := r.registry.sources.erase k } },
      .going [.stopSource s, .joinSource s, .forgetDiscovery k])
  | none => (r, .failed (.notFound s!"discovery {k}"))

def removeDrain (r : Relay) (k : Key) : Relay × Act.Progress :=
  match r.registry.drains.get? k with
  | some d =>
    let registry :=
      { r.registry with drains := r.registry.drains.erase k, channels := r.registry.channels.erase k }
    ({ r with registry }, .going [.closeDrain d, .forgetCollector k])
  | none => (r, .failed (.notFound s!"collector {k}"))

def act (r : Relay) (me : Nat) : Act → Option (Relay × Act.Progress)
  | .deliver d =>
    (r.deliver me d).map fun (r, p) =>
      match p with
      | .going d => (r, .going [.deliver d])
      | .over (.ok ()) => (r, .going [])
      | .over (.error f) => (r, .failed f)
  | .cycle n c =>
    match r.scouts.get? n with
    | none => some (r, .going [])
    | some s =>
      (r.cycle me n s c).map fun (r, p) =>
        match p with
        | .going c => (r, .going [.cycle n c])
        | .over status => (r, .answer status)
  | .sleep due => if due ≤ r.clock then some (r, .going []) else none
  | .await tasks => if tasks.all r.hasEnded then some (r, .going []) else none
  | .removeSource k => some (r.removeSource k)
  | .stopSource s => some (r.stopSource s, .going [])
  | .joinSource s => some ((r.joinSource s).1, .going [.await (r.joinSource s).2])
  | .forgetDiscovery k => some (if r.reportEvery.isSome then r.forgetDiscovery k else r, .going [])
  | .removeDrain k => some (r.removeDrain k)
  | .closeDrain d => some ((r.closeDrain d).1, .going (r.closeDrain d).2)
  | .closeSink sink => some (r.record (.sinkClosed sink), .going [])
  | .forgetCollector k => some (if r.reportEvery.isSome then r.forgetCollector k else r, .going [])
  | .removeSources => some (r, .going (r.registry.sources.keys.map .removeSource))
  | .removeDrains => some (r, .going (r.registry.drains.keys.map .removeDrain))

def callStep (r : Relay) (me : Nat) (acts : List Act) (tolerant : Bool) : Option (Relay × Task) :=
  match acts with
  | [] => some (r, finished)
  | a :: rest =>
    (r.act me a).map fun (r, p) =>
      match p with
      | .going more => (r, .call (more ++ rest) tolerant)
      | .answer status => (r, .ended (.ok (some status)))
      | .failed f => if tolerant then (r, .call rest tolerant) else (r, .ended (.error f))

/-! All tasks -/

def turn (r : Relay) (me : Nat) : Task → Option (Relay × Task)
  | .worker n c w =>
    match r.pools.get? n with
    | some p => r.work me n c p w
    | none => some (r, finished)
  | .reporter n aborted next stage =>
    match r.pools.get? n with
    | some p => r.report n p aborted next stage
    | none => some (r, finished)
  | .retirement sink workers =>
    if workers.all r.hasEnded then some (r.record (.sinkClosed sink), finished) else none
  | .loop n due stage =>
    match r.scouts.get? n with
    | some s => r.loopStep me n due s stage
    | none => some (r, finished)
  | .announcement n =>
    match r.scouts.get? n with
    | some s => some (r.writeStatus s .idle, finished)
    | none => some (r, finished)
  | .call acts tolerant => r.callStep me acts tolerant
  | .ended _ => none

def step (r : Relay) (me : Nat) : Option Relay :=
  (r.tasks.get? me).bind fun t => (r.turn me t).map fun (r, t) => r.setTask me t

end ScrapeRelay.Relay

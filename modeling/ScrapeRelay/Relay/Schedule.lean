import ScrapeRelay.Relay.Install

/-!
Running a relay in order: tasks take their turns by their numbers, each as long as it can, and the clock
moves only when all of them wait. A run is a sequence of steps and moves of the clock; the bound on its
length is far above what any relay needs.
-/

namespace ScrapeRelay.Relay

/-- How many turns may be taken at one time of the clock. -/
def patience : Nat := 0x1000000000000000

def runTask : Nat → Relay → Nat → Relay
  | 0, r, _ => r
  | fuel + 1, r, me =>
    match r.step me with
    | none => r
    | some r => runTask fuel r me

def round (r : Relay) (out : Option Nat) : Relay × Bool :=
  r.tasks.keys.foldl (fun (r, moved) me =>
    if out = some me then (r, moved)
    else
      match r.step me with
      | none => (r, moved)
      | some r => (runTask patience r me, true)) (r, false)

def settleFor : Nat → Relay → Option Nat → Relay
  | 0, r, _ => r
  | fuel + 1, r, out =>
    let (r, moved) := r.round out
    if moved then settleFor fuel r out else r

def settle (r : Relay) : Relay := settleFor patience r none

def nextTime? (r : Relay) : Option Nat := ((r.tasks.values.filterMap Task.due?).filter (r.clock < ·)).min?

def setClock (r : Relay) (t : Nat) : Relay := { r with clock := t }

/-- Runs a call to its end, or until a time by which it still waits. The call goes first, then all others
take their turns, then the clock moves on. -/
def finishBy : Nat → Relay → Nat → Nat → Relay
  | 0, r, _, _ => r
  | fuel + 1, r, me, last =>
    let r := runTask patience r me
    if r.hasEnded me then r
    else
      let r := settleFor patience r (some me)
      if (r.step me).isSome then finishBy fuel r me last
      else
        match r.nextTime? with
        | some t => if t < last then finishBy fuel (r.setClock t) me last else r.setClock last
        | none => r.setClock last

/-- Why no more targets were drawn: there are enough, there is none, or there will be none any more. -/
inductive Ending where
  | more
  | empty
  | disconnected
  deriving DecidableEq, Repr

def draw (channel : Nat) : Nat → Relay → Relay × List Target × Ending
  | 0, r => (r, [], .more)
  | n + 1, r =>
    match r.take? channel none with
    | some (t, r) =>
      let (r, rest, ending) := draw channel n r.settle
      (r, t :: rest, ending)
    | none => (r, [], if r.hasSender channel then .empty else .disconnected)

def longest : Nat := 3600000

def perform (r : Relay) (acts : List Act) (tolerant : Bool) : Relay × Option Outcome :=
  let (r, me) := r.call acts tolerant
  let r := finishBy patience r me (r.clock + longest)
  match r.tasks.get? me with
  | some (.ended o) => ({ r with tasks := r.tasks.erase me }, some o)
  | _ => (r.abandon me, none)

end ScrapeRelay.Relay

import ScrapeRelay.Target

/-!
Channels between discoveries and pools. A channel is a queue with a capacity. Senders that find it full
stand in line, each with one target, and workers that find it empty stand in another line. A target for
a worker in line goes into the queue whatever the capacity, since that worker is about to take one.

Senders and workers are known by the numbers of their tasks.
-/

namespace ScrapeRelay.Relay

structure Channel where
  capacity : Nat
  queue : List Target
  waiting : List Nat
  blocked : List (Nat × Target)
  deriving DecidableEq

namespace Channel

def ofBuffer (size : Nat) : Channel := ⟨max 1 size, [], [], []⟩

def depth (c : Channel) : Nat := c.queue.length

def offer? (c : Channel) (t : Target) : Option Channel :=
  match c.waiting with
  | _ :: rest => some { c with waiting := rest, queue := c.queue ++ [t] }
  | [] => if c.depth < c.capacity then some { c with queue := c.queue ++ [t] } else none

def block (c : Channel) (sender : Nat) (t : Target) : Channel :=
  { c with blocked := c.blocked ++ [(sender, t)] }

def isBlocked (c : Channel) (sender : Nat) : Bool := c.blocked.any (·.1 == sender)

def withdraw (c : Channel) (sender : Nat) : Channel :=
  { c with blocked := c.blocked.filter (·.1 != sender) }

/-- The senders whose targets enter when a worker comes: there is room for one more, since the worker
takes one away. -/
def admitted (c : Channel) : List (Nat × Target) := c.blocked.take (c.capacity + 1 - c.depth)

def refill (c : Channel) : Channel :=
  { c with
    queue := c.queue ++ c.admitted.map (·.2)
    blocked := c.blocked.drop (c.capacity + 1 - c.depth) }

def next? (c : Channel) : Option Target := c.refill.queue.head?

def take (c : Channel) : Channel := { c.refill with queue := c.refill.queue.tail }

def isWaiting (c : Channel) (worker : Nat) : Bool := c.waiting.contains worker

def await (c : Channel) (worker : Nat) : Channel := { c with waiting := c.waiting ++ [worker] }

/-- A worker leaves the line. One that had been called up already passes the call on to all others when
there is something to take. -/
def leave (c : Channel) (worker : Nat) : Channel :=
  if c.isWaiting worker then { c with waiting := c.waiting.filter (· != worker) }
  else if c.queue.isEmpty then c
  else { c with waiting := [] }

end Channel

end ScrapeRelay.Relay

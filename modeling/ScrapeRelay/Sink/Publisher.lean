import ScrapeRelay.Collector.Spec

/-!
A publisher hands every payload to a message broker under one subject. It has to be connected first.
-/

namespace ScrapeRelay.Sink

structure Session where
  token : Option String
  published : List (String × String)
  deriving DecidableEq

structure Publisher where
  broker : Collector.Broker
  session : Option Session
  deriving DecidableEq

namespace Publisher

def unconnected (broker : Collector.Broker) : Publisher := ⟨broker, none⟩

def connect (p : Publisher) (reachable : String → Bool) : Except Failure Publisher :=
  if reachable p.broker.url then .ok { p with session := some ⟨p.broker.token, []⟩ }
  else .error (.sink s!"connect {p.broker.url}: connection refused")

def send (p : Publisher) (payload : String) : Except Failure Publisher :=
  match p.session with
  | none => .error (.sink s!"not connected to {p.broker.url}")
  | some session =>
    let published := session.published ++ [(p.broker.subject, payload)]
    .ok { p with session := some { session with published } }

def close (_ : Publisher) : Except Failure Unit := .ok ()

end Publisher

end ScrapeRelay.Sink

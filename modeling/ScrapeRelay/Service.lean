import ScrapeRelay.Relay.Schedule
import ScrapeRelay.Settings
import ScrapeRelay.Status.Page

/-!
The service: a relay with all the resources that its settings declare, and the pages about it. Collectors
come before discoveries, so that the first cycle finds them. A resource that cannot be installed is left
out.
-/

namespace ScrapeRelay.Service

structure Surroundings where
  kit : Collector.Kit
  reachable : String → Bool
  free : String → Nat → Bool
  network : Network

def Surroundings.means (w : Surroundings) : Relay.Means := .of w.kit w.reachable

def installCollector (m : Relay.Means) (r : Relay) (d : Settings.Declaration Collector.Spec) : Relay :=
  match r.installPool m d.key d.spec with
  | .ok r => { r with inventory := r.inventory.putCollector d.key d.spec }
  | .error _ => r

def installDiscovery (r : Relay) (d : Settings.Declaration Discovery.Spec) : Relay :=
  match r.installDiscovery d.key d.spec with
  | .ok r => r
  | .error _ => r

section Install

-- what each collector finds when its turn comes
variable (means : Settings.Declaration Collector.Spec → Relay.Means)

def install (r : Relay) (s : Settings) : Relay :=
  s.discoveries.foldl installDiscovery (s.collectors.foldl (fun r d => installCollector (means d) r d) r)

def relay (network : Network) (s : Settings) : Relay :=
  install means (.start (.ofDeclared s.cluster) network (some (s.statusIntervalSeconds * 1000))) s

end Install

def setUp (r : Relay) (x : Float) : Relay := { r with board := { r.board with up := x } }

/-- The service runs once it listens; it is up before. -/
def start (w : Surroundings) (s : Settings) : Except Failure Relay :=
  let r := setUp (relay (fun _ => w.means) w.network s) 1
  if w.free s.address s.port then .ok r else .error (.io s!"cannot listen on {s.address}:{s.port}")

def stop (r : Relay) : Relay := ((setUp r 0).perform Relay.shutdownCall true).1

end ScrapeRelay.Service

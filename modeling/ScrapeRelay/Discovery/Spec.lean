import ScrapeRelay.Cluster.Selector
import ScrapeRelay.Failure
import ScrapeRelay.Key

/-!
Discovery resources: which objects to scan, how often, and which collectors to feed.
-/

namespace ScrapeRelay.Discovery

open Document (Reading fields? list? nullable?)

structure CollectorRef where
  /-- Empty for the namespace of the discovery itself. -/
  «namespace» : String
  name : String
  deriving DecidableEq, Repr

structure Resources where
  pods : Bool
  services : Bool
  endpoints : Bool
  deriving DecidableEq, Repr

structure Spec where
  collectors : List CollectorRef
  selector : Cluster.Selector
  enabled : Bool
  intervalSeconds : Nat
  annotationPrefix : String
  resources : Resources
  /-- How long one collector may hold up a cycle. -/
  sendTimeoutSeconds : Option Nat
  deriving DecidableEq

namespace CollectorRef

def key (c : CollectorRef) (home : String) : Key := ⟨if c.namespace = "" then home else c.namespace, c.name⟩

def decode? (r : Reading) (j : Json) : Option CollectorRef := do
  let fs ← fields? r ["namespace", "name"] j
  let «namespace» ← fs.withDefault "namespace" "" r.text?
  let name ← fs.required "name" r.text?
  pure ⟨«namespace», name⟩

def toJson (c : CollectorRef) : Json := .obj [("namespace", .str c.namespace), ("name", .str c.name)]

end CollectorRef

namespace Resources

def all : Resources := ⟨true, true, true⟩

def decode? (r : Reading) (j : Json) : Option Resources := do
  let fs ← fields? r ["pods", "services", "endpoints"] j
  let pods ← fs.withDefault "pods" true r.flag?
  let services ← fs.withDefault "services" true r.flag?
  let endpoints ← fs.withDefault "endpoints" true r.flag?
  pure ⟨pods, services, endpoints⟩

def toJson (x : Resources) : Json :=
  .obj [("pods", .bool x.pods), ("services", .bool x.services), ("endpoints", .bool x.endpoints)]

end Resources

namespace Spec

def standard : Spec where
  collectors := []
  selector := .everything
  enabled := true
  intervalSeconds := 10
  annotationPrefix := "prometheus.io"
  resources := .all
  sendTimeoutSeconds := none

instance : Inhabited Spec := ⟨standard⟩

def decode? (r : Reading) (j : Json) : Option Spec := do
  let fs ← fields? r ["collectors", "selector", "enabled", "interval_seconds", "prefix", "resources",
    "send_timeout_seconds"] j
  let collectors ← fs.withDefault "collectors" standard.collectors (list? (CollectorRef.decode? r))
  let selector ← fs.withDefault "selector" standard.selector (Cluster.Selector.decode? r)
  let enabled ← fs.withDefault "enabled" standard.enabled r.flag?
  let interval ← fs.withDefault "interval_seconds" standard.intervalSeconds r.natural?
  let annotationPrefix ← fs.withDefault "prefix" standard.annotationPrefix r.text?
  let resources ← fs.withDefault "resources" standard.resources (Resources.decode? r)
  let timeout ← fs.withDefault "send_timeout_seconds" standard.sendTimeoutSeconds (nullable? r.natural?)
  pure ⟨collectors, selector, enabled, interval, annotationPrefix, resources, timeout⟩

def toJson (s : Spec) : Json :=
  .obj [("collectors", .arr (s.collectors.map CollectorRef.toJson)), ("selector", s.selector.toJson),
    ("enabled", .bool s.enabled), ("interval_seconds", .nat s.intervalSeconds),
    ("prefix", .str s.annotationPrefix), ("resources", s.resources.toJson),
    ("send_timeout_seconds", .nullable .nat s.sendTimeoutSeconds)]

def collectorKeys (s : Spec) (home : String) : List Key := s.collectors.map (·.key home)

inductive Problem where
  | interval
  | unnamedCollector
  | sendTimeout
  deriving DecidableEq, Repr

def Problem.text : Problem → String
  | interval => "interval_seconds must be greater than 0"
  | unnamedCollector => "collector name must be set"
  | sendTimeout => "send_timeout_seconds must be greater than 0 when set"

def problems (s : Spec) : List Problem :=
  (if s.intervalSeconds = 0 then [.interval] else []) ++
    (if s.collectors.any (·.name = "") then [.unnamedCollector] else []) ++
    (if s.sendTimeoutSeconds = some 0 then [.sendTimeout] else [])

def validate (s : Spec) : Except Failure Unit :=
  if s.problems = [] then .ok () else .error (.validation (s.problems.map Problem.text))

end Spec

end ScrapeRelay.Discovery

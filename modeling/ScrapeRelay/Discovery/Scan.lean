import ScrapeRelay.Cluster.Inventory
import ScrapeRelay.Discovery.Spec
import ScrapeRelay.Target

/-!
Scanning the cluster for targets: pods first, then services, each kind in key order. A headless service
stands for its ready addresses. What cannot be asked for yields no targets.
-/

namespace ScrapeRelay.Discovery

open Cluster (Inventory Outage Pod Service Endpoints Address)

namespace Spec

def podTarget? (s : Spec) (p : Pod) : Option Target :=
  let t := Target.ofAnnotations p.info.annotations s.annotationPrefix
  match p.ip with
  | some ip =>
    if t.scrape ∧ ip ≠ "" then
      some { t with
        ip
        reference := p.reference
        labels := p.info.labels
        annotations := p.info.annotations }
    else none
  | none => none

def serviceBase (s : Spec) (x : Service) : Target :=
  { Target.ofAnnotations x.info.annotations s.annotationPrefix with
    labels := x.info.labels
    annotations := x.info.annotations }

/-- An address is known by the object behind it, or else by its endpoints object. -/
def addressTarget (base : Target) (e : Endpoints) (a : Address) : Target :=
  { base with ip := a.ip, reference := a.reference.getD e.reference }

def headlessTargets (s : Spec) (base : Target) (found : Except Failure (Option Endpoints)) : List Target :=
  match found with
  | .ok (some e) => if s.resources.endpoints then e.ready.map (addressTarget base e) else []
  | _ => []

def serviceTargets (s : Spec) (i : Inventory) (o : Outage) (x : Service) : List Target :=
  let base := s.serviceBase x
  if !base.scrape then []
  else if x.isHeadless then s.headlessTargets base (i.getEndpoints o x.info.key)
  else if x.clusterIp = "" then []
  else [{ base with ip := x.clusterIp, reference := x.reference }]

def podTargets (s : Spec) (i : Inventory) (o : Outage) : List Target :=
  match i.listPods o s.selector with
  | .ok pods => pods.filterMap s.podTarget?
  | .error _ => []

def servicesTargets (s : Spec) (i : Inventory) (o : Outage) : List Target :=
  match i.listServices o s.selector with
  | .ok services => services.flatMap (s.serviceTargets i o)
  | .error _ => []

def scan (s : Spec) (i : Inventory) (o : Outage) : List Target :=
  (if s.resources.pods then s.podTargets i o else []) ++
    (if s.resources.services then s.servicesTargets i o else [])

end Spec

end ScrapeRelay.Discovery

import ScrapeRelay.Cluster.Object
import ScrapeRelay.Cluster.Selector
import ScrapeRelay.Collector.Spec

/-!
The inventory of a cluster: its objects and the collectors known in it, each under its key.
-/

namespace ScrapeRelay.Cluster

/-- Objects as they are declared; of several with one key the last one counts. -/
structure Declared where
  pods : List Pod
  services : List Service
  endpoints : List Endpoints
  deriving DecidableEq

namespace Declared

def none : Declared := ⟨[], [], []⟩

open Document (fields? list?)

def decode? (r : Document.Reading) (j : Json) : Option Declared := do
  let fs ← fields? r ["pods", "services", "endpoints"] j
  let pods ← fs.withDefault "pods" [] (list? (Pod.decode? r))
  let services ← fs.withDefault "services" [] (list? (Service.decode? r))
  let endpoints ← fs.withDefault "endpoints" [] (list? (Endpoints.decode? r))
  pure ⟨pods, services, endpoints⟩

end Declared

structure Inventory where
  pods : Dict Key Pod
  services : Dict Key Service
  endpoints : Dict Key Endpoints
  collectors : Dict Key Collector.Spec
  deriving DecidableEq

namespace Inventory

def empty : Inventory := ⟨.empty, .empty, .empty, .empty⟩

instance : Inhabited Inventory := ⟨empty⟩

def putPod (i : Inventory) (p : Pod) : Inventory := { i with pods := i.pods.insert p.info.key p }

def putService (i : Inventory) (s : Service) : Inventory :=
  { i with services := i.services.insert s.info.key s }

def putEndpoints (i : Inventory) (e : Endpoints) : Inventory :=
  { i with endpoints := i.endpoints.insert e.info.key e }

def putCollector (i : Inventory) (k : Key) (s : Collector.Spec) : Inventory :=
  { i with collectors := i.collectors.insert k s }

def removePod (i : Inventory) (k : Key) : Inventory := { i with pods := i.pods.erase k }

def removeCollector (i : Inventory) (k : Key) : Inventory := { i with collectors := i.collectors.erase k }

def ofDeclared (d : Declared) : Inventory :=
  d.endpoints.foldl putEndpoints (d.services.foldl putService (d.pods.foldl putPod empty))

end Inventory

structure Outage where
  pods : Bool
  services : Bool
  endpoints : Key → Bool
  collectors : Bool

namespace Outage

def none : Outage := ⟨false, false, fun _ => false, false⟩

instance : Inhabited Outage := ⟨none⟩

end Outage

def answer (failing : Bool) (what : String) {α : Type} (a : α) : Except Failure α :=
  if failing then .error (.list s!"{what}: connection refused") else .ok a

namespace Inventory

def listPods (i : Inventory) (o : Outage) (s : Selector) : Except Failure (List Pod) :=
  answer o.pods "pods" (i.pods.values.filter fun p => s.selects p.info.labels)

def listServices (i : Inventory) (o : Outage) (s : Selector) : Except Failure (List Service) :=
  answer o.services "services" (i.services.values.filter fun x => s.selects x.info.labels)

def getEndpoints (i : Inventory) (o : Outage) (k : Key) : Except Failure (Option Endpoints) :=
  answer (o.endpoints k) "endpoints" (i.endpoints.get? k)

def getCollector (i : Inventory) (o : Outage) (k : Key) : Except Failure (Option Collector.Spec) :=
  answer o.collectors "collectors" (i.collectors.get? k)

end Inventory

end ScrapeRelay.Cluster

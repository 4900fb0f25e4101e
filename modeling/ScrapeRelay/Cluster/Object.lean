import ScrapeRelay.Key

/-!
The cluster objects that discoveries scan: pods, services and endpoints.
-/

namespace ScrapeRelay.Cluster

open Document (Reading fields? list? texts?)

structure Meta where
  «namespace» : String
  name : String
  version : String
  labels : Dict String String
  annotations : Dict String String
  deriving DecidableEq, Inhabited

structure Reference where
  kind : String
  «namespace» : String
  name : String
  version : String
  deriving DecidableEq, Repr, Inhabited

structure Pod where
  info : Meta
  ip : Option String
  deriving DecidableEq

structure Service where
  info : Meta
  clusterIp : String
  deriving DecidableEq

structure Address where
  ip : String
  reference : Option Reference
  deriving DecidableEq

structure Subset where
  ready : List Address
  notReady : List Address
  deriving DecidableEq

structure Endpoints where
  info : Meta
  subsets : List Subset
  deriving DecidableEq

namespace Meta

def key (m : Meta) : Key := ⟨m.namespace, m.name⟩

def reference (kind : String) (m : Meta) : Reference := ⟨kind, m.namespace, m.name, m.version⟩

def decode? (r : Reading) (j : Json) : Option Meta := do
  let fs ← fields? r ["namespace", "name", "resource_version", "labels", "annotations"] j
  let «namespace» ← fs.withDefault "namespace" "" r.text?
  let name ← fs.required "name" r.text?
  let version ← fs.withDefault "resource_version" "" r.text?
  let labels ← fs.withDefault "labels" .empty (texts? r)
  let annotations ← fs.withDefault "annotations" .empty (texts? r)
  pure ⟨«namespace», name, version, labels, annotations⟩

def toJson (m : Meta) : Json :=
  .obj [("namespace", .str m.namespace), ("name", .str m.name), ("resource_version", .str m.version),
    ("labels", .texts m.labels), ("annotations", .texts m.annotations)]

end Meta

namespace Reference

def decode? (r : Reading) (j : Json) : Option Reference := do
  let fs ← fields? r ["kind", "namespace", "name", "resource_version"] j
  let kind ← fs.withDefault "kind" "" r.text?
  let «namespace» ← fs.withDefault "namespace" "" r.text?
  let name ← fs.withDefault "name" "" r.text?
  let version ← fs.withDefault "resource_version" "" r.text?
  pure ⟨kind, «namespace», name, version⟩

def toJson (o : Reference) : Json :=
  .obj [("kind", .str o.kind), ("namespace", .str o.namespace), ("name", .str o.name),
    ("resource_version", .str o.version)]

end Reference

namespace Pod

def decode? (r : Reading) (j : Json) : Option Pod := do
  let fs ← fields? r ["metadata", "pod_ip"] j
  let info ← fs.required "metadata" (Meta.decode? r)
  let ip ← fs.withDefault "pod_ip" none (Document.nullable? r.text?)
  pure ⟨info, ip⟩

def toJson (p : Pod) : Json := .obj [("metadata", p.info.toJson), ("pod_ip", .nullable .str p.ip)]

def reference (p : Pod) : Reference := p.info.reference "Pod"

end Pod

namespace Service

def isHeadless (s : Service) : Bool := s.clusterIp = "None"

def decode? (r : Reading) (j : Json) : Option Service := do
  let fs ← fields? r ["metadata", "cluster_ip"] j
  let info ← fs.required "metadata" (Meta.decode? r)
  let ip ← fs.withDefault "cluster_ip" "" r.text?
  pure ⟨info, ip⟩

def toJson (s : Service) : Json := .obj [("metadata", s.info.toJson), ("cluster_ip", .str s.clusterIp)]

def reference (s : Service) : Reference := s.info.reference "Service"

end Service

namespace Address

def decode? (r : Reading) (j : Json) : Option Address := do
  let fs ← fields? r ["ip", "target_ref"] j
  let ip ← fs.required "ip" r.text?
  let reference ← fs.withDefault "target_ref" none (Document.nullable? (Reference.decode? r))
  pure ⟨ip, reference⟩

def toJson (a : Address) : Json :=
  .obj [("ip", .str a.ip), ("target_ref", .nullable Reference.toJson a.reference)]

end Address

namespace Subset

def decode? (r : Reading) (j : Json) : Option Subset := do
  let fs ← fields? r ["addresses", "not_ready_addresses"] j
  let ready ← fs.withDefault "addresses" [] (list? (Address.decode? r))
  let notReady ← fs.withDefault "not_ready_addresses" [] (list? (Address.decode? r))
  pure ⟨ready, notReady⟩

def toJson (s : Subset) : Json :=
  .obj [("addresses", .arr (s.ready.map Address.toJson)),
    ("not_ready_addresses", .arr (s.notReady.map Address.toJson))]

end Subset

namespace Endpoints

def ready (e : Endpoints) : List Address := e.subsets.flatMap (·.ready)

def reference (e : Endpoints) : Reference := e.info.reference "Endpoints"

def decode? (r : Reading) (j : Json) : Option Endpoints := do
  let fs ← fields? r ["metadata", "subsets"] j
  let info ← fs.required "metadata" (Meta.decode? r)
  let subsets ← fs.withDefault "subsets" [] (list? (Subset.decode? r))
  pure ⟨info, subsets⟩

def toJson (e : Endpoints) : Json :=
  .obj [("metadata", e.info.toJson), ("subsets", .arr (e.subsets.map Subset.toJson))]

end Endpoints

end ScrapeRelay.Cluster

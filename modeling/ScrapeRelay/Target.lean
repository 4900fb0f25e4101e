import ScrapeRelay.Cluster.Object
import ScrapeRelay.Text.Separated

/-!
Scrape targets. The annotations of an object say under a prefix whether, where and with what tags it
is scraped.
-/

namespace ScrapeRelay

structure Target where
  ip : String
  scheme : String
  port : String
  path : String
  scrape : Bool
  includeMetadata : Bool
  includeLabels : List String
  includeAnnotations : List String
  reference : Cluster.Reference
  labels : Dict String String
  annotations : Dict String String
  deriving DecidableEq

namespace Target

def ofAnnotations (annotations : Dict String String) (annotationPrefix : String) : Target :=
  let get := fun name => annotations.get? (annotationPrefix ++ "/" ++ name)
  { ip := ""
    scheme := (get "scheme").getD "http"
    port := (get "port").getD "9090"
    path := (get "path").getD "/metrics"
    scrape := get "scrape" = some "true"
    includeMetadata := get "includeMetadata" = some "true"
    includeLabels := ((get "includeLabels").map Text.commaList).getD []
    includeAnnotations := ((get "includeAnnotations").map Text.commaList).getD []
    reference := default
    labels := .empty
    annotations := .empty }

def url (t : Target) : String := t.scheme ++ "://" ++ t.ip ++ ":" ++ t.port ++ t.path

structure Selection where
  metadata : Bool
  labels : List String
  annotations : List String
  deriving DecidableEq, Repr

def pick (source : Dict String String) (names : List String) (tags : Dict String String) :
    Dict String String :=
  names.foldl (fun tags name =>
    match source.get? name with
    | some value => tags.insert name value
    | none => tags) tags

def metadataTags (o : Cluster.Reference) : Dict String String :=
  Dict.ofList ([("kind", o.kind), ("namespace", o.namespace), ("name", o.name),
    ("resource_version", o.version)].filter fun e => e.2 ≠ "")

/-- The tags for every metric of a target: metadata, then labels, then annotations, each as the
target or the collector selects them. -/
def tags (t : Target) (s : Selection) : Dict String String :=
  let tags := if t.includeMetadata || s.metadata then metadataTags t.reference else .empty
  let tags := pick t.labels (t.includeLabels ++ s.labels) tags
  pick t.annotations (t.includeAnnotations ++ s.annotations) tags

end Target

end ScrapeRelay

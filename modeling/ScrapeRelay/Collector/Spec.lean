import ScrapeRelay.Document
import ScrapeRelay.Encoder
import ScrapeRelay.Failure
import ScrapeRelay.Filter
import ScrapeRelay.Target

/-!
Collector resources: the workers of a pool, the capacity of its channel, what it adds to metrics,
which metrics it drops and where it sends the others.
-/

namespace ScrapeRelay.Collector

open Document (Reading fields? list? nullable?)

/-- A message broker. The token is read and never written. -/
structure Broker where
  url : String
  subject : String
  token : Option String
  deriving DecidableEq

structure Output where
  nats : Option Broker
  stdout : Bool
  deriving DecidableEq

structure Clip where
  min : Float
  max : Float
  inclusive : Bool
  deriving DecidableEq

structure Filters where
  clip : Option Clip
  exclude : Option (List Float)
  deriving DecidableEq

structure Tls where
  ca : Option String
  cert : Option String
  key : Option String
  insecure : Bool
  deriving DecidableEq, Repr

structure Spec where
  enabled : Bool
  workers : Nat
  bufferSize : Nat
  encoder : String
  selection : Target.Selection
  output : Output
  filters : Filters
  tls : Option Tls
  deriving DecidableEq

namespace Broker

def standard : Broker := ⟨"nats://127.0.0.1:4222", "strata.metrics", none⟩

def decode? (r : Reading) (j : Json) : Option Broker := do
  let fs ← fields? r ["url", "subject", "token"] j
  let url ← fs.withDefault "url" standard.url r.text?
  let subject ← fs.withDefault "subject" standard.subject r.text?
  let token ← fs.withDefault "token" none (nullable? r.text?)
  pure ⟨url, subject, token⟩

def toJson (b : Broker) : Json := .obj [("url", .str b.url), ("subject", .str b.subject)]

end Broker

inductive Destination where
  | stdout
  | nats (broker : Broker)
  deriving DecidableEq

namespace Output

def decode? (r : Reading) (j : Json) : Option Output := do
  let fs ← fields? r ["nats", "stdout"] j
  let nats ← fs.withDefault "nats" none (nullable? (Broker.decode? r))
  let stdout ← fs.withDefault "stdout" none (nullable? (fields? r []))
  pure ⟨nats, stdout.isSome⟩

def toJson (o : Output) : Json :=
  .obj [("nats", .nullable Broker.toJson o.nats), ("stdout", if o.stdout then .obj [] else .null)]

/-- A broker wins; the standard output is what remains. -/
def destination (o : Output) : Destination :=
  match o.nats with
  | some b => .nats b
  | none => .stdout

def count (o : Output) : Nat := o.nats.isSome.toNat + o.stdout.toNat

end Output

namespace Clip

/-- All positive finite numbers but the two at the ends. -/
def standard : Clip := ⟨Float.ofBits 1, Float.ofBits 0x7fefffffffffffff, false⟩

def decode? (r : Reading) (j : Json) : Option Clip := do
  let fs ← fields? r ["min", "max", "inclusive"] j
  let min ← fs.withDefault "min" standard.min r.real?
  let max ← fs.withDefault "max" standard.max r.real?
  let inclusive ← fs.withDefault "inclusive" false r.flag?
  pure ⟨min, max, inclusive⟩

def real (x : Float) : Json := .num (.real x)

def toJson (c : Clip) : Json :=
  .obj [("min", real c.min), ("max", real c.max), ("inclusive", .bool c.inclusive)]

end Clip

namespace Filters

def decodeExclude? (r : Reading) (j : Json) : Option (List Float) := do
  let fs ← fields? r ["values"] j
  fs.withDefault "values" [] (list? r.real?)

def decode? (r : Reading) (j : Json) : Option Filters := do
  let fs ← fields? r ["clip", "exclude"] j
  let clip ← fs.withDefault "clip" none (nullable? (Clip.decode? r))
  let exclude ← fs.withDefault "exclude" none (nullable? (decodeExclude? r))
  pure ⟨clip, exclude⟩

def toJson (f : Filters) : Json :=
  .obj [("clip", .nullable Clip.toJson f.clip),
    ("exclude", .nullable (fun values => .obj [("values", .arr (values.map Clip.real))]) f.exclude)]

/-- Listed values are dropped before the interval is looked at. -/
def chain (f : Filters) : List Filter :=
  (f.exclude.map Filter.exclude).toList ++ (f.clip.map fun c => Filter.clip c.min c.max c.inclusive).toList

end Filters

namespace Tls

def decode? (r : Reading) (j : Json) : Option Tls := do
  let fs ← fields? r ["ca", "cert", "key", "insecure_skip_verify"] j
  let ca ← fs.withDefault "ca" none (nullable? r.text?)
  let cert ← fs.withDefault "cert" none (nullable? r.text?)
  let key ← fs.withDefault "key" none (nullable? r.text?)
  let insecure ← fs.withDefault "insecure_skip_verify" false r.flag?
  pure ⟨ca, cert, key, insecure⟩

def toJson (t : Tls) : Json :=
  .obj [("ca", .nullable .str t.ca), ("cert", .nullable .str t.cert), ("key", .nullable .str t.key),
    ("insecure_skip_verify", .bool t.insecure)]

end Tls

namespace Spec

def standard : Spec where
  enabled := true
  workers := 1
  bufferSize := 10000
  encoder := "json"
  selection := ⟨false, [], []⟩
  output := ⟨none, false⟩
  filters := ⟨none, none⟩
  tls := none

instance : Inhabited Spec := ⟨standard⟩

def decode? (r : Reading) (j : Json) : Option Spec := do
  let fs ← fields? r ["enabled", "workers", "buffer_size", "encoder", "include_metadata", "include_labels",
    "include_annotations", "output", "filters", "tls"] j
  let enabled ← fs.withDefault "enabled" standard.enabled r.flag?
  let workers ← fs.withDefault "workers" standard.workers r.natural?
  let bufferSize ← fs.withDefault "buffer_size" standard.bufferSize r.natural?
  let encoder ← fs.withDefault "encoder" standard.encoder r.text?
  let includeMetadata ← fs.withDefault "include_metadata" false r.flag?
  let includeLabels ← fs.withDefault "include_labels" [] (list? r.text?)
  let includeAnnotations ← fs.withDefault "include_annotations" [] (list? r.text?)
  let output ← fs.withDefault "output" standard.output (Output.decode? r)
  let filters ← fs.withDefault "filters" standard.filters (Filters.decode? r)
  let tls ← fs.withDefault "tls" none (nullable? (Tls.decode? r))
  pure ⟨enabled, workers, bufferSize, encoder, ⟨includeMetadata, includeLabels, includeAnnotations⟩, output,
    filters, tls⟩

def toJson (s : Spec) : Json :=
  .obj [("enabled", .bool s.enabled), ("workers", .nat s.workers), ("buffer_size", .nat s.bufferSize),
    ("encoder", .str s.encoder), ("include_metadata", .bool s.selection.metadata),
    ("include_labels", .strings s.selection.labels), ("include_annotations", .strings s.selection.annotations),
    ("output", s.output.toJson), ("filters", s.filters.toJson), ("tls", .nullable Tls.toJson s.tls)]

inductive Problem where
  | workers
  | bufferSize
  | encoder (name : String)
  | outputs
  | clip
  deriving DecidableEq, Repr

def Problem.text : Problem → String
  | workers => "workers must be greater than 0"
  | bufferSize => "buffer_size must be greater than 0"
  | encoder name => s!"unknown encoder: {name}"
  | outputs => "only one output may be configured"
  | clip => "clip filter min must not exceed max"

def problems (s : Spec) : List Problem :=
  (if s.workers = 0 then [.workers] else []) ++
    (if s.bufferSize = 0 then [.bufferSize] else []) ++
    (if Encoder.ofName? s.encoder = none then [.encoder s.encoder] else []) ++
    (if s.output.count > 1 then [.outputs] else []) ++
    (if s.filters.clip.any fun c => c.min > c.max then [.clip] else [])

def validate (s : Spec) : Except Failure Unit :=
  if s.problems = [] then .ok () else .error (.validation (s.problems.map Problem.text))

end Spec

end ScrapeRelay.Collector

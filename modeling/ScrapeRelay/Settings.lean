import ScrapeRelay.Cluster.Inventory
import ScrapeRelay.Discovery.Spec
import ScrapeRelay.Document.Lenient
import ScrapeRelay.Json.Reader
import ScrapeRelay.Settings.Path
import ScrapeRelay.Toml.Reader

/-!
Settings of the service: where it listens, its intervals, the cluster it serves from and the
resources it installs. They come from a file, if it is there, and from the environment.
-/

namespace ScrapeRelay

structure Settings.Declaration (α : Type) where
  key : Key
  spec : α
  deriving DecidableEq

structure Settings where
  address : String
  port : Nat
  scrapeTimeoutSeconds : Nat
  statusIntervalSeconds : Nat
  cluster : Cluster.Declared
  discoveries : List (Settings.Declaration Discovery.Spec)
  collectors : List (Settings.Declaration Collector.Spec)
  deriving DecidableEq

namespace Settings

open Document (Reading fields? list?)

def standard : Settings where
  address := "0.0.0.0"
  port := 9464
  scrapeTimeoutSeconds := 2
  statusIntervalSeconds := 10
  cluster := .none
  discoveries := []
  collectors := []

def Declaration.decode? {α : Type} [Inhabited α] (f : Reading → Json → Option α) (r : Reading) (j : Json) :
    Option (Declaration α) := do
  let fs ← fields? r ["namespace", "name", "spec"] j
  let «namespace» ← fs.withDefault "namespace" "default" r.text?
  let name ← fs.required "name" r.text?
  let spec ← fs.withDefault "spec" default (f r)
  pure ⟨⟨«namespace», name⟩, spec⟩

def port? (r : Reading) (j : Json) : Option Nat :=
  (r.natural? j).bind fun n => if n < UInt16.size then some n else none

def server? (r : Reading) (j : Json) : Option (String × Nat) := do
  let fs ← fields? r ["addr", "port"] j
  let address ← fs.withDefault "addr" standard.address r.text?
  let port ← fs.withDefault "port" standard.port (port? r)
  pure (address, port)

def seconds? (r : Reading) (name : String) (default : Nat) (j : Json) : Option Nat := do
  let fs ← fields? r [name] j
  fs.withDefault name default r.natural?

def decode? (r : Reading) (j : Json) : Option Settings := do
  let fs ← fields? r ["server", "scrape", "status", "cluster", "discoveries", "collectors"] j
  let server ← fs.withDefault "server" (standard.address, standard.port) (server? r)
  let timeout ← fs.withDefault "scrape" standard.scrapeTimeoutSeconds
    (seconds? r "timeout_seconds" standard.scrapeTimeoutSeconds)
  let interval ← fs.withDefault "status" standard.statusIntervalSeconds
    (seconds? r "interval_seconds" standard.statusIntervalSeconds)
  let cluster ← fs.withDefault "cluster" .none (Cluster.Declared.decode? r)
  let discoveries ← fs.withDefault "discoveries" [] (list? (Declaration.decode? Discovery.Spec.decode? r))
  let collectors ← fs.withDefault "collectors" [] (list? (Declaration.decode? Collector.Spec.decode? r))
  pure ⟨server.1, server.2, timeout, interval, cluster, discoveries, collectors⟩

inductive Problem where
  | scrapeTimeout
  | statusInterval
  | repeatedCollector (k : Key)
  | repeatedDiscovery (k : Key)
  deriving DecidableEq, Repr

def Problem.text : Problem → String
  | scrapeTimeout => "scrape.timeout_seconds must be at least 1"
  | statusInterval => "status.interval_seconds must be at least 1"
  | repeatedCollector k => s!"collector {k} declared more than once"
  | repeatedDiscovery k => s!"discovery {k} declared more than once"

def firstRepeated (seen : List Key) : List Key → Option Key
  | [] => none
  | k :: rest => if k ∈ seen then some k else firstRepeated (k :: seen) rest

/-- The first thing that keeps the service from running. The resources themselves are looked at when
they are installed. -/
def problem? (s : Settings) : Option Problem :=
  if s.scrapeTimeoutSeconds = 0 then some .scrapeTimeout
  else if s.statusIntervalSeconds = 0 then some .statusInterval
  else
    ((firstRepeated [] (s.collectors.map (·.key))).map .repeatedCollector).or
      ((firstRepeated [] (s.discoveries.map (·.key))).map .repeatedDiscovery)

def validate (s : Settings) : Except Problem Unit :=
  match s.problem? with
  | some p => .error p
  | none => .ok ()

inductive Source where
  | toml (text : String)
  | json (text : String)
  deriving DecidableEq, Repr

inductive LoadError where
  | unreadable
  | undecodable
  | invalid (p : Problem)
  deriving DecidableEq, Repr

def LoadError.text : LoadError → String
  | unreadable => "Failed to build configuration"
  | undecodable => "Failed to deserialize configuration"
  | invalid p => p.text

def Source.entries? : Source → Option (List (String × Json))
  | toml text => (Toml.read? text.toList).map members
  | json text =>
    match Json.read? text.toList with
    | some (.obj ms) => some (distinct ms)
    | _ => none

def variablePrefix : List Char := "strata_collector__".toList

def dotted : List Char → List Char
  | '_' :: '_' :: rest => '.' :: dotted rest
  | c :: rest => c :: dotted rest
  | [] => []

def ofVariable? (name value : String) : Option (String × Json) :=
  let cs := name.toList.map Char.toLower
  if variablePrefix.isPrefixOf cs then
    some (String.ofList (dotted (cs.drop variablePrefix.length)), .str value)
  else none

def lay (tree : Json) (entry : String × Json) : Json := change (overlay entry.2) (Path.read entry.1) tree

def load (file : Option Source) (environment : List (String × String)) : Except LoadError Settings := do
  let entries ← match file with
    | none => pure []
    | some source =>
      match source.entries? with
      | some entries => pure entries
      | none => .error .unreadable
  let given := environment.filterMap fun e => ofVariable? e.1 e.2
  let tree := (entries ++ given).foldl lay (.obj [])
  match decode? Document.lenient tree with
  | none => .error .undecodable
  | some s =>
    match s.validate with
    | .error p => .error (.invalid p)
    | .ok _ => pure s

end Settings

end ScrapeRelay

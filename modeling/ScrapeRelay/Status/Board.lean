import ScrapeRelay.Json.Writer
import ScrapeRelay.Status.Gauge

/-!
The status board keeps the latest status of every discovery and collector and shows them in two
views: a snapshot in key order and the gauges in the exposition format.
-/

namespace ScrapeRelay.Status

structure Board where
  discoveries : Dict Key Discovery.Status
  collectors : Dict Key Collector.Status
  gauges : Gauges
  /-- Positive while the service runs. -/
  up : Float
  deriving DecidableEq

namespace Board

def empty : Board := ⟨.empty, .empty, .empty, 0⟩

instance : Inhabited Board := ⟨empty⟩

def updateDiscovery (b : Board) (k : Key) (s : Discovery.Status) : Board :=
  { b with discoveries := b.discoveries.insert k s, gauges := b.gauges.setAll k (discoveryValues s) }

def updateCollector (b : Board) (k : Key) (s : Collector.Status) : Board :=
  { b with collectors := b.collectors.insert k s, gauges := b.gauges.setAll k (collectorValues s) }

def forgetDiscovery (b : Board) (k : Key) : Board :=
  { b with discoveries := b.discoveries.erase k, gauges := b.gauges.remove k Family.ofDiscoveries }

def forgetCollector (b : Board) (k : Key) : Board :=
  { b with collectors := b.collectors.erase k, gauges := b.gauges.remove k Family.ofCollectors }

def snapshot (b : Board) : Json :=
  let keyed := fun (k : Key) (status : Json) =>
    Json.obj [("namespace", .str k.namespace), ("name", .str k.name), ("status", status)]
  .obj [("discoveries", .arr (b.discoveries.toList.map fun e => keyed e.1 e.2.toJson)),
    ("collectors", .arr (b.collectors.toList.map fun e => keyed e.1 e.2.toJson))]

def escapeLabel (c : Char) : List Char :=
  if c = '\\' then ['\\', '\\']
  else if c = '"' then ['\\', '"']
  else if c = '\n' then ['\\', 'n']
  else [c]

def labelText (name value : String) : String :=
  name ++ "=\"" ++ String.ofList (value.toList.flatMap escapeLabel) ++ "\""

def header (name help : String) : String :=
  "# HELP " ++ name ++ " " ++ help ++ "\n# TYPE " ++ name ++ " gauge\n"

def seriesLine (name : String) (s : Series) : String :=
  name ++ "\x7b" ++ labelText "name" s.labels.name ++ "," ++ labelText "namespace" s.labels.namespace ++
    "\x7d " ++ Decimal.text s.value ++ "\n"

def seriesOrder (a b : Series) : Bool :=
  ((compare a.labels.name b.labels.name).then (compare a.labels.namespace b.labels.namespace)).isLE

def familyText (f : Family) (series : List Series) : String :=
  if series.isEmpty then ""
  else header f.name f.help ++ String.join ((series.mergeSort seriesOrder).map (seriesLine f.name))

def render (b : Board) : String :=
  String.join (Family.all.map fun f => familyText f (b.gauges.family f).values) ++
    header "strata_up" "Collector service status (1=running)" ++ "strata_up " ++ Decimal.text b.up ++ "\n"

end Board

end ScrapeRelay.Status

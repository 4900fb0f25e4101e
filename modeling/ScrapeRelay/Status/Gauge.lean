import ScrapeRelay.Collector.Status
import ScrapeRelay.Decimal.Layout
import ScrapeRelay.Discovery.Status
import ScrapeRelay.Key

/-!
Gauges about the relay itself. A family holds one series per pair of namespace and name; two pairs
whose texts run together to the same text share a series, which keeps the labels it was made with.
-/

namespace ScrapeRelay.Status

open Std

inductive Family where
  | collectorErrors
  | collectorFiltered
  | collectorInFlight
  | collectorCollected
  | collectorRegistered
  | collectorSent
  | discoveryActive
  | discoveryResources
  | discoveryInFlight
  | discoveryLast
  | discoveryReady
  | discoveryTotal
  deriving DecidableEq, Repr

namespace Family

def all : List Family :=
  [collectorErrors, collectorFiltered, collectorInFlight, collectorCollected, collectorRegistered,
    collectorSent, discoveryActive, discoveryResources, discoveryInFlight, discoveryLast, discoveryReady,
    discoveryTotal]

def name : Family → String
  | collectorErrors => "strata_collector_errors"
  | collectorFiltered => "strata_collector_filtered"
  | collectorInFlight => "strata_collector_in_flight_resources"
  | collectorCollected => "strata_collector_metrics_collected"
  | collectorRegistered => "strata_collector_registered_discoveries"
  | collectorSent => "strata_collector_sent"
  | discoveryActive => "strata_discovery_active"
  | discoveryResources => "strata_discovery_discovered_resources"
  | discoveryInFlight => "strata_discovery_in_flight_resources"
  | discoveryLast => "strata_discovery_last_discovered_timestamp_seconds"
  | discoveryReady => "strata_discovery_ready_collectors"
  | discoveryTotal => "strata_discovery_total_collectors"

def help : Family → String
  | collectorErrors => "Scrape, parse, encode and send failures since the pool started"
  | collectorFiltered => "Metrics dropped by the filter chain since the pool started"
  | collectorInFlight => "Targets waiting in the collector channel"
  | collectorCollected => "Metrics collected and shipped since the pool started"
  | collectorRegistered => "Discoveries referencing this collector"
  | collectorSent => "Metrics successfully sent to the sink since the pool started"
  | discoveryActive => "Discovery status (1=active, 0=inactive)"
  | discoveryResources => "Targets found in the last discovery cycle"
  | discoveryInFlight => "Targets waiting across all collectors this discovery feeds"
  | discoveryLast => "Unix time of the last completed discovery cycle"
  | discoveryReady => "Referenced collectors that exist and are enabled"
  | discoveryTotal => "Collectors referenced by the discovery"

def ofCollectors : List Family :=
  [collectorSent, collectorErrors, collectorFiltered, collectorCollected, collectorInFlight,
    collectorRegistered]

def ofDiscoveries : List Family :=
  [discoveryActive, discoveryResources, discoveryReady, discoveryTotal, discoveryInFlight, discoveryLast]

end Family

structure Series where
  labels : Key
  value : Float
  deriving DecidableEq

namespace Family

instance : Ord Family := ⟨compareOn Family.ctorIdx⟩

instance : TransOrd Family := inferInstanceAs (TransCmp (compareOn Family.ctorIdx))

instance : LawfulEqOrd Family where
  eq_of_compare {a b} h := by
    have h : compare a.ctorIdx b.ctorIdx = .eq := h
    have := LawfulEqCmp.eq_of_compare h
    revert this
    cases a <;> cases b <;> decide

end Family

structure Gauges where
  families : Dict Family (Dict String Series)
  deriving DecidableEq

namespace Gauges

def empty : Gauges := ⟨.empty⟩

def family (g : Gauges) (f : Family) : Dict String Series := g.families.getD f .empty

def identity (k : Key) : String := k.namespace ++ k.name

def set (g : Gauges) (f : Family) (k : Key) (x : Float) : Gauges :=
  ⟨g.families.insert f ((g.family f).modify (identity k) fun found => ⟨(found.map (·.labels)).getD k, x⟩)⟩

def removeFrom (g : Gauges) (k : Key) (f : Family) : Gauges :=
  ⟨g.families.insert f ((g.family f).erase (identity k))⟩

def remove (g : Gauges) (k : Key) (fs : List Family) : Gauges := fs.foldl (·.removeFrom k) g

def setAll (g : Gauges) (k : Key) (values : List (Family × Float)) : Gauges :=
  values.foldl (fun g e => g.set e.1 k e.2) g

end Gauges

def word (n : UInt64) : Float := Float.ofNat n.toNat

def collectorValues (s : Collector.Status) : List (Family × Float) :=
  [(.collectorSent, word s.sent), (.collectorErrors, word s.errors), (.collectorFiltered, word s.filtered),
    (.collectorCollected, word s.collected), (.collectorInFlight, word s.inFlight),
    (.collectorRegistered, word s.registeredDiscoveries)]

def discoveryValues (s : Discovery.Status) : List (Family × Float) :=
  [(.discoveryActive, if s.active then 1 else 0), (.discoveryResources, word s.discoveredResources),
    (.discoveryReady, word s.readyCollectors), (.discoveryTotal, word s.totalCollectors),
    (.discoveryInFlight, word s.inFlight)] ++
    (s.lastDiscovered.map fun t => (Family.discoveryLast, Float.ofInt t.seconds)).toList

end ScrapeRelay.Status

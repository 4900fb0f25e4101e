import ScrapeRelay.Collector.Spec
import ScrapeRelay.Collector.Status
import ScrapeRelay.Exposition.Family
import ScrapeRelay.Network

/-!
The way of a target through a collector: its page is fetched and read, then every metric on its own is
dropped by a filter, refused by the encoder or turned into a payload.
-/

namespace ScrapeRelay.Collector

structure Pipeline where
  selection : Target.Selection
  filters : List Filter
  encoder : Encoder
  deriving DecidableEq

namespace Pipeline

def ofSpec (s : Spec) : Pipeline := ⟨s.selection, s.filters.chain, .named s.encoder⟩

def scrape (p : Pipeline) (n : Network) (now : Timestamp) (t : Target) : Except Failure (List Metric) := do
  let body ← n.fetch t.url
  match Exposition.read now (t.tags p.selection) body with
  | .ok metrics => pure metrics
  | .error e => .error (.parse e.line e.fault.text)

inductive Fate where
  | filtered (filter : String)
  | refused (problem : Encoder.Unrepresentable)
  | payload (text : String)
  deriving DecidableEq

def fate (p : Pipeline) (m : Metric) : Fate :=
  match Filter.firstMatch p.filters m with
  | some name => .filtered name
  | none =>
    match p.encoder.encode m with
    | .ok text => .payload text
    | .error problem => .refused problem

def payloads (p : Pipeline) (ms : List Metric) : List String :=
  ms.filterMap fun m =>
    match p.fate m with
    | .payload text => some text
    | _ => none

end Pipeline

end ScrapeRelay.Collector

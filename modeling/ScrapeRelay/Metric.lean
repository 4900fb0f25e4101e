import ScrapeRelay.Dict
import ScrapeRelay.Timestamp

/-!
Metric records: one sample each, with the values and the tags that go to the output.
-/

namespace ScrapeRelay

inductive Metric.Kind where
  | counter
  | gauge
  | untyped
  | summary
  | histogram
  | unknown
  deriving DecidableEq, Repr

namespace Metric.Kind

def name : Kind → String
  | counter => "counter"
  | gauge => "gauge"
  | untyped => "untyped"
  | summary => "summary"
  | histogram => "histogram"
  | unknown => "unknown"

def all : List Kind := [counter, gauge, untyped, summary, histogram, unknown]

def ofName? (s : String) : Option Kind := all.find? fun k => k.name = s

def entry? : Kind → Option String
  | counter => some "counter"
  | gauge => some "gauge"
  | untyped => some "value"
  | _ => none

end Metric.Kind

structure Metric where
  name : String
  values : Dict String Float
  tags : Dict String String
  timestamp : Timestamp
  kind : Metric.Kind
  deriving DecidableEq

namespace Metric

/-- The value under the kind's own entry; for kinds without one, the first value there is. -/
def value (m : Metric) : Option Float :=
  match m.kind.entry? with
  | some entry => m.values.get? entry
  | none => m.values.values.head?

end Metric

end ScrapeRelay

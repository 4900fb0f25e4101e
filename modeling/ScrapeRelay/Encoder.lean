import ScrapeRelay.Json.Writer
import ScrapeRelay.Metric

/-!
Encoded metrics: one JSON object each. A metric with a value that JSON cannot hold is refused.
-/

namespace ScrapeRelay

namespace Metric

def toJson (m : Metric) : Json :=
  .obj [("name", .str m.name),
    ("values", .obj (m.values.toList.map fun e => (e.1, .num (.real e.2)))),
    ("tags", .obj (m.tags.toList.map fun e => (e.1, .str e.2))),
    ("timestamp", .str m.timestamp.text),
    ("vtype", .str m.kind.name)]

end Metric

inductive Encoder where
  | json
  deriving DecidableEq, Repr

namespace Encoder

def ofName? (name : String) : Option Encoder := if name = "json" then some json else none

def named (name : String) : Encoder := (ofName? name).getD json

structure Unrepresentable where
  entry : String
  value : Float
  metric : String
  deriving DecidableEq

def Unrepresentable.text (u : Unrepresentable) : String :=
  s!"{u.entry} value {Decimal.text u.value} of {u.metric} is not representable in JSON"

/-- The first entry in key order that is no finite number is reported. -/
def encode (_ : Encoder) (m : Metric) : Except Unrepresentable String :=
  match m.values.toList.find? fun e => !e.2.isFinite with
  | some (entry, value) => .error ⟨entry, value, m.name⟩
  | none => .ok m.toJson.text

end Encoder

end ScrapeRelay

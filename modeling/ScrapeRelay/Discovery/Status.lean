import ScrapeRelay.Document
import ScrapeRelay.Timestamp

/-!
The status of a discovery: what its last cycle found and how far its collectors were ready.
-/

namespace ScrapeRelay.Discovery

structure Status where
  active : Bool
  lastDiscovered : Option Timestamp
  readyCollectors : UInt64
  totalCollectors : UInt64
  discoveredResources : UInt64
  inFlight : UInt64
  deriving DecidableEq, Repr, Inhabited

namespace Status

def idle : Status := ⟨false, none, 0, 0, 0, 0⟩

open Document (fields? word?)

def decode? (r : Document.Reading) (j : Json) : Option Status := do
  let fs ← fields? r ["active", "last_discovered", "ready_collectors", "total_collectors",
    "discovered_resources_count", "in_flight_resources"] j
  let active ← fs.required "active" r.flag?
  let last ← fs.optional "last_discovered" fun j => (r.text? j).bind fun s => Timestamp.read? s.toList
  let ready ← fs.required "ready_collectors" (word? r)
  let total ← fs.required "total_collectors" (word? r)
  let discovered ← fs.required "discovered_resources_count" (word? r)
  let inFlight ← fs.required "in_flight_resources" (word? r)
  pure ⟨active, last, ready, total, discovered, inFlight⟩

def toJson (s : Status) : Json :=
  .obj [("active", .bool s.active), ("last_discovered", .nullable (fun t => .str t.text) s.lastDiscovered),
    ("ready_collectors", .nat s.readyCollectors.toNat), ("total_collectors", .nat s.totalCollectors.toNat),
    ("discovered_resources_count", .nat s.discoveredResources.toNat),
    ("in_flight_resources", .nat s.inFlight.toNat)]

end Status

end ScrapeRelay.Discovery

import ScrapeRelay.Document

/-!
The status of a collector pool: the counters of its workers and what was last seen of its channel
and its discoveries. Counters start over after `2 ^ 64 - 1`.
-/

namespace ScrapeRelay.Collector

structure Status where
  registeredDiscoveries : UInt64
  inFlight : UInt64
  sent : UInt64
  errors : UInt64
  filtered : UInt64
  collected : UInt64
  deriving DecidableEq, Repr, Inhabited

namespace Status

def zero : Status := ⟨0, 0, 0, 0, 0, 0⟩

/-- A metric that was sent counts as collected, too. -/
def countSent (s : Status) : Status := { s with sent := s.sent + 1, collected := s.collected + 1 }
def countError (s : Status) : Status := { s with errors := s.errors + 1 }
def countFiltered (s : Status) : Status := { s with filtered := s.filtered + 1 }

def reset (s : Status) : Status := { s with sent := 0, errors := 0, filtered := 0, collected := 0 }

open Document (fields? word?)

def decode? (r : Document.Reading) (j : Json) : Option Status := do
  let fs ← fields? r ["registered_discoveries", "in_flight_resources", "total_sent", "total_errors",
    "total_filtered", "metrics_collected"] j
  let registered ← fs.required "registered_discoveries" (word? r)
  let inFlight ← fs.required "in_flight_resources" (word? r)
  let sent ← fs.required "total_sent" (word? r)
  let errors ← fs.required "total_errors" (word? r)
  let filtered ← fs.required "total_filtered" (word? r)
  let collected ← fs.required "metrics_collected" (word? r)
  pure ⟨registered, inFlight, sent, errors, filtered, collected⟩

def toJson (s : Status) : Json :=
  .obj [("registered_discoveries", .nat s.registeredDiscoveries.toNat),
    ("in_flight_resources", .nat s.inFlight.toNat), ("total_sent", .nat s.sent.toNat),
    ("total_errors", .nat s.errors.toNat), ("total_filtered", .nat s.filtered.toNat),
    ("metrics_collected", .nat s.collected.toNat)]

end Status

end ScrapeRelay.Collector

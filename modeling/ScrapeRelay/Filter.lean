import ScrapeRelay.Metric

/-!
Filters drop counters and gauges by their value; metrics of other kinds always pass. A chain drops
what any of its filters matches.
-/

namespace ScrapeRelay

structure Rule where
  name : String
  matchesMetric : Metric → Bool

namespace Rule

def firstMatch (chain : List Rule) (m : Metric) : Option String :=
  (chain.find? fun r => r.matchesMetric m).map name

def shouldDrop (chain : List Rule) (m : Metric) : Bool := (firstMatch chain m).isSome

end Rule

inductive Filter where
  | exclude (values : List Float)
  /-- Drops values outside the interval, which has its ends only if `inclusive`. -/
  | clip (min max : Float) (inclusive : Bool)
  deriving DecidableEq

namespace Filter

def name : Filter → String
  | exclude _ => "exclude"
  | clip .. => "clip"

def subject? (m : Metric) : Option Float :=
  match m.kind with
  | .counter | .gauge => m.value
  | _ => none

/-- Whether a value is dropped; no number lies inside an interval or equals a listed value. -/
def drops (x : Float) : Filter → Bool
  | exclude values => values.any (x == ·)
  | clip min max true => !(min ≤ x && x ≤ max)
  | clip min max false => !(min < x && x < max)

def matchesMetric (f : Filter) (m : Metric) : Bool := (subject? m).any (f.drops ·)

def rule (f : Filter) : Rule := ⟨f.name, f.matchesMetric⟩

def firstMatch (chain : List Filter) (m : Metric) : Option String := Rule.firstMatch (chain.map rule) m

def shouldDrop (chain : List Filter) (m : Metric) : Bool := Rule.shouldDrop (chain.map rule) m

end Filter

end ScrapeRelay

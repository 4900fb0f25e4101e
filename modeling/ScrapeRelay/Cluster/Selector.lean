import ScrapeRelay.Document

/-!
Label selectors. A selector is a conjunction of required labels and requirements; the empty one
matches everything.
-/

namespace ScrapeRelay.Cluster

open Document (Reading fields? list? texts?)

inductive Operator where
  | isIn
  | notIn
  | present
  | absent
  deriving DecidableEq, Repr

structure Requirement where
  key : String
  operator : Operator
  values : List String
  deriving DecidableEq, Repr

structure Selector where
  labels : Dict String String
  requirements : List Requirement
  deriving DecidableEq

namespace Operator

def name : Operator → String
  | isIn => "In"
  | notIn => "NotIn"
  | present => "Exists"
  | absent => "DoesNotExist"

def ofName? (s : String) : Option Operator := [isIn, notIn, present, absent].find? fun o => o.name = s

end Operator

namespace Requirement

/-- A label that is not there is in no list. -/
def holds (q : Requirement) (labels : Dict String String) : Bool :=
  let value := labels.get? q.key
  match q.operator with
  | .isIn => value.any (q.values.contains ·)
  | .notIn => !value.any (q.values.contains ·)
  | .present => value.isSome
  | .absent => value.isNone

def decode? (r : Reading) (j : Json) : Option Requirement := do
  let fs ← fields? r ["key", "operator", "values"] j
  let key ← fs.required "key" r.text?
  let operator ← fs.required "operator" fun j => (r.choice? j).bind Operator.ofName?
  let values ← fs.withDefault "values" [] (list? r.text?)
  pure ⟨key, operator, values⟩

def toJson (q : Requirement) : Json :=
  .obj [("key", .str q.key), ("operator", .str q.operator.name), ("values", .strings q.values)]

end Requirement

namespace Selector

def everything : Selector := ⟨.empty, []⟩

instance : Inhabited Selector := ⟨everything⟩

def selects (s : Selector) (labels : Dict String String) : Bool :=
  (s.labels.toList.all fun e => labels.get? e.1 = some e.2) && s.requirements.all (·.holds labels)

def decode? (r : Reading) (j : Json) : Option Selector := do
  let fs ← fields? r ["match_labels", "match_expressions"] j
  let labels ← fs.withDefault "match_labels" .empty (texts? r)
  let requirements ← fs.withDefault "match_expressions" [] (list? (Requirement.decode? r))
  pure ⟨labels, requirements⟩

def toJson (s : Selector) : Json :=
  .obj [("match_labels", .texts s.labels), ("match_expressions", .arr (s.requirements.map Requirement.toJson))]

end Selector

end ScrapeRelay.Cluster

import ScrapeRelay.Document

namespace ScrapeRelay

open Std

structure Key where
  «namespace» : String
  name : String
  deriving DecidableEq, Repr, Inhabited

namespace Key

def ordering (a b : Key) : Ordering := (compare a.namespace b.namespace).then (compare a.name b.name)

instance : Ord Key := ⟨ordering⟩

theorem compare_def : (compare : Key → Key → Ordering) =
    compareLex (compareOn Key.namespace) (compareOn Key.name) := rfl

instance : TransOrd Key := by
  show TransCmp (compareLex (compareOn Key.namespace) (compareOn Key.name))
  infer_instance

instance : LawfulEqOrd Key where
  eq_of_compare {a b} h := by
    rw [compare_def, compareLex_eq_eq] at h
    cases a; cases b
    simpa [compareOn] using h

instance : ToString Key := ⟨fun k => k.namespace ++ "/" ++ k.name⟩

def decode? (r : Document.Reading) (j : Json) : Option Key := do
  let fs ← Document.fields? r ["namespace", "name"] j
  pure ⟨← fs.required "namespace" r.text?, ← fs.required "name" r.text?⟩

end Key

end ScrapeRelay

import ScrapeRelay.Document
import Mathlib.Data.List.Forall2

/-!
Documents with more in them: fields that a record does not know, and the values of those that were left out. What a
document says is kept.
-/

namespace ScrapeRelay.Document

def Kept {α : Type} (x y : Option α) : Prop := ∀ a, x = some a → y = some a

def Keeps {α : Type} (R : Json → Json → Prop) (f : Json → Option α) : Prop :=
  ∀ j j', R j j' → Kept (f j) (f j')

/-- A field may only be added with the value that `full` has for it. -/
def FieldGrown (full : Json) (name : String) (R : Json → Json → Prop) (ms ms' : List (String × Json)) :
    Prop :=
  match Json.last? name ms, Json.last? name ms' with
  | some j, some j' => R j j'
  | some _, none => False
  | none, some j' => full.get? name = some j'
  | none, none => True

/-- A record with more fields than before. Of those that it knows each has grown in its own way or has been
added as in `full`; the others are free. -/
def RecordGrown (full : Json) (fields : List (String × (Json → Json → Prop))) (j j' : Json) : Prop :=
  j = j' ∨ ∃ ms ms', j = .obj ms ∧ j' = .obj ms' ∧ ∀ e ∈ fields, FieldGrown full e.1 e.2 ms ms'

def ListGrown (R : Json → Json → Prop) (j j' : Json) : Prop :=
  j = j' ∨ ∃ items items', j = .arr items ∧ j' = .arr items' ∧ List.Forall₂ R items items'

def named (ms : List (String × Json)) : Fields := ⟨fun name => Json.last? name ms, false⟩

variable {α β : Type} {f : Json → Option α} {R : Json → Json → Prop} {full : Json} {name : String}

namespace Kept

theorem refl (x : Option α) : Kept x x := fun _ h => h

theorem bind {x y : Option α} {f g : α → Option β} (h : Kept x y) (hf : ∀ a, Kept (f a) (g a)) :
    Kept (x >>= f) (y >>= g) := by
  intro b hb
  obtain ⟨a, ha, hfa⟩ := Option.bind_eq_some_iff.mp hb
  exact Option.bind_eq_some_iff.mpr ⟨a, h a ha, hf a b hfa⟩

theorem map {x y : Option α} (h : Kept x y) (f : α → β) : Kept (x.map f) (y.map f) := by
  intro b hb
  obtain ⟨a, ha, rfl⟩ := Option.map_eq_some_iff.mp hb
  rw [h a ha, Option.map_some]

theorem mapM {l l' : List Json} (h : List.Forall₂ (fun j j' => Kept (f j) (f j')) l l') :
    Kept (l.mapM f) (l'.mapM f) := by
  induction h with
  | nil => exact refl _
  | cons hj _ ih =>
    rw [List.mapM_cons, List.mapM_cons]
    exact bind hj fun a => bind ih fun as => refl _

variable {ms ms' : List (String × Json)} {d : α}

theorem required (h : FieldGrown full name R ms ms') (hR : Keeps R f) :
    Kept ((named ms).required name f) ((named ms').required name f) := by
  unfold FieldGrown at h
  simp only [Fields.required, named]
  split at h
  · rename_i hj hj'
    rw [hj, hj']
    exact hR _ _ h
  · exact h.elim
  · rename_i hj hj'
    rw [hj]
    nofun
  · rename_i hj hj'
    rw [hj, hj']
    exact refl _

theorem withDefault_of (h : FieldGrown full name R ms ms') (hR : Keeps R f)
    (hd : ∀ j, full.get? name = some j → f j = some d) :
    Kept ((named ms).withDefault name d f) ((named ms').withDefault name d f) := by
  unfold FieldGrown at h
  simp only [Fields.withDefault, named]
  split at h
  · rename_i hj hj'
    rw [hj, hj']
    exact hR _ _ h
  · exact h.elim
  · rename_i hj hj'
    rw [hj, hj']
    rintro _ ⟨⟩
    exact hd _ h
  · rename_i hj hj'
    rw [hj, hj']
    exact refl _

theorem withDefault {j : Json} (h : FieldGrown full name R ms ms') (hR : Keeps R f) (hj : full.get? name = some j)
    (hd : f j = some d) : Kept ((named ms).withDefault name d f) ((named ms').withDefault name d f) := by
  refine withDefault_of h hR fun j' hj' => ?_
  rwa [← Option.some.inj (hj.symm.trans hj')]

theorem unwritten (h : FieldGrown full name R ms ms') (hR : Keeps R f) (hj : full.get? name = none) :
    Kept ((named ms).withDefault name d f) ((named ms').withDefault name d f) := by
  refine withDefault_of h hR fun j' hj' => ?_
  rw [hj] at hj'
  cases hj'

end Kept

theorem keeps_eq (f : Json → Option α) : Keeps Eq f := by
  rintro j _ rfl
  exact .refl _

theorem Keeps.list (h : Keeps R f) : Keeps (ListGrown R) (list? f) := by
  rintro j j' (rfl | ⟨items, items', rfl, rfl, hitems⟩)
  · exact .refl _
  · exact .mapM (hitems.imp h)

theorem Keeps.nullable {fields : List (String × (Json → Json → Prop))}
    (h : Keeps (RecordGrown full fields) f) : Keeps (RecordGrown full fields) (nullable? f) := by
  rintro j j' hj
  -- Unless both are the same, both are objects, and neither is null.
  rcases id hj with rfl | ⟨ms, ms', rfl, rfl, -⟩
  · exact .refl _
  · exact (h _ _ hj).map some

theorem keeps_record {fields : List (String × (Json → Json → Prop))} {names : List String}
    {g : Fields → Option α}
    (h : ∀ ms ms', (∀ name R, (name, R) ∈ fields → FieldGrown full name R ms ms') →
      Kept (g (named ms)) (g (named ms'))) :
    Keeps (RecordGrown full fields) fun j => fields? strict names j >>= g := by
  rintro j j' (rfl | ⟨ms, ms', rfl, rfl, hms⟩)
  · exact .refl _
  · exact h ms ms' fun name R hR => hms (name, R) hR

end ScrapeRelay.Document

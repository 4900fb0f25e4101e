import ScrapeRelay.Document
import ScrapeRelay.Proofs.Dict
import ScrapeRelay.Proofs.Json.ReadBack

/-!
Lists, maps, values that may be absent and the fields of records are read back from the documents that they are
written as.
-/

namespace ScrapeRelay.Document

variable {α : Type} {f : Json → Option α} {e : α → Json}

theorem mapM_map {β γ : Type} {f : β → Option γ} {g : γ → β} {l : List γ}
    (h : ∀ a ∈ l, f (g a) = some a) : (l.map g).mapM f = some l := by
  induction l with
  | nil => rfl
  | cons a l ih =>
    obtain ⟨ha, hl⟩ := List.forall_mem_cons.mp h
    rw [List.map_cons, List.mapM_cons, ha, ih hl]
    rfl

theorem list?_arr {l : List α} (h : ∀ a ∈ l, f (e a) = some a) : list? f (.arr (l.map e)) = some l :=
  mapM_map h

theorem list?_strings (l : List String) : list? strict.text? (.strings l) = some l := list?_arr fun _ _ => rfl

theorem members_map {d : Dict String α} (h : ∀ m ∈ d.entries, f (e m.2) = some m.2) :
    ((d.toList.map fun m => (m.1, e m.2)).mapM fun m => (f m.2).map fun v => (m.1, v)).map Dict.ofList =
      some d := by
  rw [mapM_map fun m hm => by rw [h m hm]; rfl, Option.map_some, Dict.ofList_toList]

theorem texts?_texts (d : Dict String String) : texts? strict (.texts d) = some d :=
  members_map (f := strict.text?) (e := Json.str) fun _ _ => rfl

theorem nullable?_some {j : Json} {a : α} (hj : j ≠ .null) (h : f j = some a) :
    nullable? f j = some (some a) := by
  unfold nullable?
  split
  · contradiction
  · rw [h]
    rfl

theorem nullable?_map {g : α → α} {o : Option α} (hne : ∀ a, e a ≠ .null)
    (h : ∀ a, f (e a) = some (g a)) : nullable? f (.nullable e o) = some (o.map g) := by
  cases o with
  | none => rfl
  | some a => exact nullable?_some (hne a) (h a)

theorem nullable?_nullable (o : Option α) (hne : ∀ a, e a ≠ .null) (h : ∀ a, f (e a) = some a) :
    nullable? f (.nullable e o) = some o := by
  rw [nullable?_map (g := id) hne h, Option.map_id_fun, id]

theorem natural?_nat (n : ℕ) : strict.natural? (.nat n) = some n := rfl

theorem text?_str (s : String) : strict.text? (.str s) = some s := rfl

namespace Fields

variable {β : Type} {fs : Fields} {name : String} {j : Json} {a d : α} {g : α → Option β} {b : β}

theorem required_bind (h : fs.find? name = some j) (hf : f j = some a) (hg : g a = some b) :
    fs.required name f >>= g = some b := by
  rw [required, h, Option.bind_some, hf]
  exact hg

theorem withDefault_bind (h : fs.find? name = some j) (hf : f j = some a) (hg : g a = some b) :
    fs.withDefault name d f >>= g = some b := by
  rw [withDefault, h]
  change f j >>= g = some b
  rw [hf]
  exact hg

end Fields

end ScrapeRelay.Document

namespace ScrapeRelay.Json.Readable

variable {α : Type} {depth n : ℕ} {e : α → Json}

theorem nat (h : n < UInt64.size) : Readable depth (.nat n) :=
  .num (.int (by omega) (by exact_mod_cast h))

theorem list {l : List α} (h : ∀ a ∈ l, Readable depth (e a)) : Readable (depth + 1) (.arr (l.map e)) := by
  refine .arr fun j hj => ?_
  obtain ⟨a, ha, rfl⟩ := List.mem_map.mp hj
  exact h a ha

theorem strings (l : List String) : Readable (depth + 1) (.strings l) := list fun s _ => .str _ s

theorem map {d : Dict String α} (h : ∀ m ∈ d.entries, Readable depth (e m.2)) :
    Readable (depth + 1) (.obj (d.toList.map fun m => (m.1, e m.2))) := by
  refine .obj fun member hm => ?_
  obtain ⟨m, hd, rfl⟩ := List.mem_map.mp hm
  exact h m hd

theorem texts (d : Dict String String) : Readable (depth + 1) (.texts d) := map fun m _ => .str _ m.2

theorem nullable {o : Option α} (h : ∀ a, o = some a → Readable depth (e a)) :
    Readable depth (.nullable e o) := by
  cases o with
  | none => exact .null depth
  | some a => exact h a rfl

end ScrapeRelay.Json.Readable

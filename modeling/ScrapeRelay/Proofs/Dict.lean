import ScrapeRelay.Dict

/-!
More about finite maps: what is in the list of a map is what it looks up, and a map is rebuilt from its list.
-/

namespace ScrapeRelay.Dict

open Std

variable {κ α : Type} [Ord κ]

section Lookup

variable [LawfulEqOrd κ]

theorem find_eq_some {l : List (κ × α)} (hl : l.Pairwise (fun a b => compare a.1 b.1 = .lt)) {k : κ} {a : α} :
    find k l = some a ↔ (k, a) ∈ l := by
  induction l with
  | nil => simp [find]
  | cons e rest ih =>
    obtain ⟨he, hr⟩ := List.pairwise_cons.mp hl
    rw [find]
    split
    · rename_i hk
      obtain rfl := LawfulEqCmp.eq_of_compare hk
      constructor
      · intro h
        rw [← Option.some.inj h]
        exact List.mem_cons_self
      · intro h
        rcases List.mem_cons.mp h with h | h
        · rw [← h]
        · exact absurd (he _ h) (by simp)
    · rename_i hk
      rw [ih hr, List.mem_cons]
      refine ⟨.inr, fun h => h.resolve_left ?_⟩
      rintro rfl
      exact hk ReflCmp.compare_self

theorem get?_eq_some {d : Dict κ α} {k : κ} {a : α} : d.get? k = some a ↔ (k, a) ∈ d.entries :=
  find_eq_some d.sorted

theorem mem_values {d : Dict κ α} {a : α} : a ∈ d.values ↔ ∃ k, d.get? k = some a := by
  simp only [values, List.mem_map, get?_eq_some]
  exact ⟨fun ⟨e, h, he⟩ => ⟨e.1, he ▸ h⟩, fun ⟨k, h⟩ => ⟨(k, a), h, rfl⟩⟩

theorem get?_filter {d : Dict κ α} (p : κ → α → Bool) (k : κ) :
    (d.filter p).get? k = (d.get? k).filter (p k) := by
  apply Option.ext
  intro a
  rw [get?_eq_some, ← Option.mem_def, Option.mem_filter_iff, Option.mem_def, get?_eq_some]
  exact List.mem_filter

theorem mem_keys {d : Dict κ α} {k : κ} {a : α} (h : d.get? k = some a) : k ∈ d.keys :=
  List.mem_map.mpr ⟨(k, a), get?_eq_some.mp h, rfl⟩

section Updated

variable [TransOrd κ] [DecidableEq κ] {d : Dict κ α} {k k' : κ} {a b : α}

theorem of_get?_insert (h : (d.insert k a).get? k' = some b) :
    k' = k ∧ b = a ∨ k' ≠ k ∧ d.get? k' = some b := by
  rw [get?_insert] at h
  split at h
  · rename_i hk
    exact .inl ⟨hk, (Option.some.inj h).symm⟩
  · rename_i hk
    exact .inr ⟨hk, h⟩

omit [TransOrd κ] in
theorem of_get?_erase (h : (d.erase k).get? k' = some b) : k' ≠ k ∧ d.get? k' = some b := by
  rw [get?_erase] at h
  split at h
  · cases h
  · rename_i hk
    exact ⟨hk, h⟩

theorem forall_insert {P : κ → α → Prop} (h : ∀ k' b, d.get? k' = some b → P k' b) (ha : P k a) :
    ∀ k' b, (d.insert k a).get? k' = some b → P k' b := by
  intro k' b hb
  rcases of_get?_insert hb with ⟨rfl, rfl⟩ | ⟨-, hb⟩
  · exact ha
  · exact h k' b hb

omit [TransOrd κ] in
theorem forall_erase {P : κ → α → Prop} (h : ∀ k' b, d.get? k' = some b → P k' b) :
    ∀ k' b, (d.erase k).get? k' = some b → P k' b :=
  fun k' b hb => h k' b (of_get?_erase hb).2

end Updated

theorem get?_foldl_insert [TransOrd κ] [DecidableEq κ] {l : List (κ × α)} (hl : (l.map (·.1)).Nodup)
    (d : Dict κ α) (k : κ) :
    (l.foldl (fun d e => d.insert e.1 e.2) d).get? k = ((l.find? fun e => e.1 = k).map (·.2)).or (d.get? k) := by
  induction l generalizing d with
  | nil => rfl
  | cons e rest ih =>
    obtain ⟨he, hr⟩ := List.nodup_cons.mp hl
    rw [List.foldl_cons, ih hr, get?_insert]
    by_cases hk : e.1 = k
    · have absent : rest.find? (fun e => e.1 = k) = none := by
        apply List.find?_eq_none.mpr
        intro x hx hxk
        exact he (List.mem_map.mpr ⟨x, hx, (of_decide_eq_true hxk).trans hk.symm⟩)
      rw [absent, List.find?_cons_of_pos (by simpa using hk), if_pos hk.symm]
      rfl
    · rw [List.find?_cons_of_neg (by simpa using hk), if_neg fun h => hk h.symm]

theorem get?_ofList [TransOrd κ] [DecidableEq κ] {l : List (κ × α)} (hl : (l.map (·.1)).Nodup) (k : κ) :
    (ofList l).get? k = (l.find? fun e => e.1 = k).map (·.2) := by
  rw [ofList, get?_foldl_insert hl, get?_empty, Option.or_none]

theorem insert_insert [TransOrd κ] [DecidableEq κ] (d : Dict κ α) (k : κ) (a b : α) :
    (d.insert k a).insert k b = d.insert k b := by
  apply Dict.ext
  intro k'
  simp only [get?_insert]
  split <;> rfl

theorem insert_self [TransOrd κ] [DecidableEq κ] {d : Dict κ α} {k : κ} {a : α} (h : d.get? k = some a) :
    d.insert k a = d := by
  apply Dict.ext
  intro k'
  rw [get?_insert]
  split
  · rename_i hk
    rw [hk, h]
  · rfl

theorem erase_insert [TransOrd κ] [DecidableEq κ] (d : Dict κ α) (k : κ) (a : α) :
    (d.erase k).insert k a = d.insert k a := by
  apply Dict.ext
  intro k'
  simp only [get?_insert, get?_erase]
  split <;> rfl

end Lookup

section Rebuild

variable [TransOrd κ]

theorem place_last {l : List (κ × α)} {k : κ} {a : α} (h : ∀ e ∈ l, compare e.1 k = .lt) :
    place k a l = l ++ [(k, a)] := by
  induction l with
  | nil => rfl
  | cons e rest ih =>
    have hk : compare k e.1 = .gt := OrientedCmp.gt_of_lt (h e List.mem_cons_self)
    simp only [place, hk, List.cons_append]
    rw [ih fun x hx => h x (List.mem_cons_of_mem e hx)]

theorem foldl_insert_entries {l : List (κ × α)} {d : Dict κ α}
    (h : (d.entries ++ l).Pairwise (fun a b => compare a.1 b.1 = .lt)) :
    (l.foldl (fun d e => d.insert e.1 e.2) d).entries = d.entries ++ l := by
  induction l generalizing d with
  | nil => simp
  | cons e rest ih =>
    have hd : (d.insert e.1 e.2).entries = d.entries ++ [e] :=
      place_last fun x hx => (List.pairwise_append.mp h).2.2 x hx e List.mem_cons_self
    rw [List.foldl_cons, ih (by rwa [hd, List.append_assoc]), hd, List.append_assoc]
    rfl

omit [TransOrd κ] in
theorem eq_of_entries {d e : Dict κ α} (h : d.entries = e.entries) : d = e := by
  cases d
  cases e
  cases h
  rfl

theorem ofList_toList (d : Dict κ α) : ofList d.toList = d :=
  eq_of_entries (foldl_insert_entries (d := empty) d.sorted)

end Rebuild

end ScrapeRelay.Dict

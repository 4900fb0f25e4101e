/-!
Finite maps kept as association lists in ascending key order, so that two maps with the same
lookups are equal. `insert` and `erase` say what they do to `get?`; `ext` is extensionality.
-/

namespace ScrapeRelay

open Std

structure Dict (κ : Type) (α : Type) [Ord κ] where
  entries : List (κ × α)
  sorted : entries.Pairwise (fun a b => compare a.1 b.1 = .lt)

namespace Dict

variable {κ α β : Type} [Ord κ]

instance [BEq κ] [BEq α] : BEq (Dict κ α) := ⟨fun a b => a.entries == b.entries⟩

instance [DecidableEq κ] [DecidableEq α] : DecidableEq (Dict κ α) := fun a b =>
  decidable_of_iff (a.entries = b.entries) ⟨fun h => by cases a; cases b; simp_all, fun h => h ▸ rfl⟩

instance [Repr κ] [Repr α] : Repr (Dict κ α) := ⟨fun d n => reprPrec d.entries n⟩

def empty : Dict κ α := ⟨[], .nil⟩

instance : EmptyCollection (Dict κ α) := ⟨empty⟩
instance : Inhabited (Dict κ α) := ⟨empty⟩

def toList (d : Dict κ α) : List (κ × α) := d.entries
def keys (d : Dict κ α) : List κ := d.entries.map (·.1)
def values (d : Dict κ α) : List α := d.entries.map (·.2)
def size (d : Dict κ α) : Nat := d.entries.length
def isEmpty (d : Dict κ α) : Bool := d.entries.isEmpty

def find (k : κ) : List (κ × α) → Option α
  | [] => none
  | e :: rest => if compare k e.1 = .eq then some e.2 else find k rest

def get? (d : Dict κ α) (k : κ) : Option α := find k d.entries
def getD (d : Dict κ α) (k : κ) (a : α) : α := (d.get? k).getD a
def contains (d : Dict κ α) (k : κ) : Bool := (d.get? k).isSome

def place (k : κ) (a : α) : List (κ × α) → List (κ × α)
  | [] => [(k, a)]
  | e :: rest =>
    match compare k e.1 with
    | .lt => (k, a) :: e :: rest
    | .eq => (k, a) :: rest
    | .gt => e :: place k a rest

theorem mem_place {k : κ} {a : α} {l : List (κ × α)} {x : κ × α} (h : x ∈ place k a l) :
    x = (k, a) ∨ x ∈ l := by
  induction l with
  | nil => simpa [place] using h
  | cons e rest ih =>
    simp only [place] at h
    split at h
    · simpa using h
    · rcases List.mem_cons.mp h with h | h
      · exact .inl h
      · exact .inr (List.mem_cons_of_mem _ h)
    · rcases List.mem_cons.mp h with h | h
      · exact .inr (h ▸ List.mem_cons_self)
      · exact (ih h).imp_right (List.mem_cons_of_mem _)

variable [TransOrd κ]

theorem place_sorted (k : κ) (a : α) {l : List (κ × α)}
    (h : l.Pairwise (fun a b => compare a.1 b.1 = .lt)) :
    (place k a l).Pairwise (fun a b => compare a.1 b.1 = .lt) := by
  induction l with
  | nil => simp [place]
  | cons e rest ih =>
    obtain ⟨he, hr⟩ := List.pairwise_cons.mp h
    simp only [place]
    split
    · rename_i hk
      refine List.pairwise_cons.mpr ⟨fun x hx => ?_, h⟩
      rcases List.mem_cons.mp hx with rfl | hx
      · exact hk
      · exact TransCmp.lt_trans hk (he x hx)
    · rename_i hk
      exact List.pairwise_cons.mpr ⟨fun x hx => TransCmp.lt_of_eq_of_lt hk (he x hx), hr⟩
    · rename_i hk
      refine List.pairwise_cons.mpr ⟨fun x hx => ?_, ih hr⟩
      rcases mem_place hx with rfl | hx
      · exact OrientedCmp.lt_of_gt hk
      · exact he x hx

def insert (d : Dict κ α) (k : κ) (a : α) : Dict κ α := ⟨place k a d.entries, place_sorted k a d.sorted⟩

omit [TransOrd κ] in
theorem filter_sorted (p : κ × α → Bool) {l : List (κ × α)}
    (h : l.Pairwise (fun a b => compare a.1 b.1 = .lt)) :
    (l.filter p).Pairwise (fun a b => compare a.1 b.1 = .lt) := h.sublist List.filter_sublist

omit [TransOrd κ] in
theorem map_sorted (f : κ → α → β) {l : List (κ × α)}
    (h : l.Pairwise (fun a b => compare a.1 b.1 = .lt)) :
    (l.map fun e => (e.1, f e.1 e.2)).Pairwise (fun a b => compare a.1 b.1 = .lt) :=
  List.pairwise_map.mpr h

omit [TransOrd κ] in
def filter (d : Dict κ α) (p : κ → α → Bool) : Dict κ α :=
  ⟨d.entries.filter fun e => p e.1 e.2, filter_sorted _ d.sorted⟩

omit [TransOrd κ] in
def map (d : Dict κ α) (f : κ → α → β) : Dict κ β :=
  ⟨d.entries.map fun e => (e.1, f e.1 e.2), map_sorted f d.sorted⟩

omit [TransOrd κ] in
def erase (d : Dict κ α) (k : κ) : Dict κ α := d.filter fun k' _ => compare k k' != .eq

def ofList (l : List (κ × α)) : Dict κ α := l.foldl (fun d e => d.insert e.1 e.2) empty

def modify (d : Dict κ α) (k : κ) (f : Option α → α) : Dict κ α := d.insert k (f (d.get? k))

omit [TransOrd κ] in
theorem find_place [LawfulEqOrd κ] [DecidableEq κ] (k k' : κ) (a : α) (l : List (κ × α))
    (h : l.Pairwise (fun a b => compare a.1 b.1 = .lt)) :
    find k' (place k a l) = if k' = k then some a else find k' l := by
  induction l with
  | nil => simp [place, find]
  | cons e rest ih =>
    obtain ⟨he, hr⟩ := List.pairwise_cons.mp h
    simp only [place]
    split
    · simp [find]
    · rename_i hk
      obtain rfl := LawfulEqCmp.eq_of_compare hk
      by_cases h' : k' = e.1 <;> simp [find, h']
    · rename_i hk
      simp only [find, ih hr]
      by_cases h' : k' = k
      · subst h'; simp [hk]
      · simp [h']

@[simp] theorem get?_insert [LawfulEqOrd κ] [DecidableEq κ] (d : Dict κ α) (k k' : κ) (a : α) :
    (d.insert k a).get? k' = if k' = k then some a else d.get? k' := find_place k k' a _ d.sorted

omit [TransOrd κ] in
theorem find_filter [LawfulEqOrd κ] [DecidableEq κ] (k k' : κ) (l : List (κ × α)) :
    find k' (l.filter fun e => compare k e.1 != .eq) = if k' = k then none else find k' l := by
  induction l with
  | nil => simp [find]
  | cons e rest ih =>
    by_cases hk : k = e.1
    · subst hk
      rw [List.filter_cons_of_neg (by simp), ih]
      by_cases h' : k' = e.1 <;> simp [find, h']
    · rw [List.filter_cons_of_pos (by simp [hk])]
      simp only [find, ih]
      by_cases h' : k' = k
      · subst h'; simp [hk]
      · simp [h']

omit [TransOrd κ] in
@[simp] theorem get?_erase [LawfulEqOrd κ] [DecidableEq κ] (d : Dict κ α) (k k' : κ) :
    (d.erase k).get? k' = if k' = k then none else d.get? k' := find_filter k k' _

omit [TransOrd κ] in
@[simp] theorem get?_empty (k : κ) : (empty : Dict κ α).get? k = none := rfl

omit [TransOrd κ] in
theorem find_eq_none {k : κ} {l : List (κ × α)} (h : ∀ e ∈ l, compare k e.1 = .lt) : find k l = none := by
  induction l with
  | nil => rfl
  | cons e rest ih =>
    rw [find, if_neg (by rw [h e List.mem_cons_self]; decide)]
    exact ih fun x hx => h x (List.mem_cons_of_mem _ hx)

theorem entries_ext [LawfulEqOrd κ] {l m : List (κ × α)}
    (hl : l.Pairwise (fun a b => compare a.1 b.1 = .lt))
    (hm : m.Pairwise (fun a b => compare a.1 b.1 = .lt))
    (h : ∀ k, find k l = find k m) : l = m := by
  induction l generalizing m with
  | nil =>
    cases m with
    | nil => rfl
    | cons e rest => simpa [find] using h e.1
  | cons e rest ih =>
    cases m with
    | nil => simpa [find] using h e.1
    | cons f more =>
      obtain ⟨he, hr⟩ := List.pairwise_cons.mp hl
      obtain ⟨hf, hs⟩ := List.pairwise_cons.mp hm
      have key : e.1 = f.1 := by
        cases hc : compare e.1 f.1 with
        | eq => exact LawfulEqCmp.eq_of_compare hc
        | lt =>
          have := h e.1
          rw [find_eq_none (l := f :: more) (fun x hx => ?_)] at this
          · simp [find] at this
          · rcases List.mem_cons.mp hx with rfl | hx
            · exact hc
            · exact TransCmp.lt_trans hc (hf x hx)
        | gt =>
          have hc := OrientedCmp.lt_of_gt hc
          have := h f.1
          rw [find_eq_none (l := e :: rest) (fun x hx => ?_)] at this
          · simp [find] at this
          · rcases List.mem_cons.mp hx with rfl | hx
            · exact hc
            · exact TransCmp.lt_trans hc (he x hx)
      have value : e.2 = f.2 := by simpa [find, key] using h e.1
      have tail : ∀ k, find k rest = find k more := by
        intro k
        by_cases hk : k = e.1
        · rw [hk, find_eq_none he, key, find_eq_none hf]
        · have := h k
          rwa [find, find, if_neg (by simpa using hk), if_neg (by simpa [← key] using hk)] at this
      rw [ih hr hs tail, Prod.ext key value]

theorem ext [LawfulEqOrd κ] {d e : Dict κ α} (h : ∀ k, d.get? k = e.get? k) : d = e := by
  obtain ⟨l, hl⟩ := d
  obtain ⟨m, hm⟩ := e
  obtain rfl := entries_ext hl hm h
  rfl

end Dict

end ScrapeRelay

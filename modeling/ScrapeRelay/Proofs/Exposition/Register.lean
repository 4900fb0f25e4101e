import ScrapeRelay.Proofs.Exposition.Ownership

/-!
Families in a register: a list with an index of the positions of their names, through which every family is
reached. Each line keeps the index in order. So reading lines into a register is reading them into the list
alone, and no position is ever out of range.
-/

namespace ScrapeRelay.Exposition

structure Register where
  families : Families
  index : Dict String ℕ

namespace Register

inductive Stop (ε : Type) where
  | outOfRange
  | refused (e : ε)

def Stop.map {ε ε' : Type} (f : ε → ε') : Stop ε → Stop ε'
  | outOfRange => outOfRange
  | refused e => refused (f e)

def empty : Register := ⟨[], .empty⟩

def family (r : Register) (i : ℕ) : Except (Stop Fault) Family :=
  match r.families[i]? with
  | some f => .ok f
  | none => .error .outOfRange

def change (r : Register) (i : ℕ) (u : Family → Family) : Except (Stop Fault) Register :=
  (r.family i).map fun _ => { r with families := r.families.modify i u }

def place (r : Register) (name : String) : Register × ℕ :=
  match r.index.get? name with
  | some i => (r, i)
  | none => (⟨r.families ++ [⟨name, none, []⟩], r.index.insert name r.families.length⟩, r.families.length)

def declare (r : Register) (name : String) (kind : Family.Kind) : Except (Stop Fault) Register :=
  let (r, i) := r.place name
  r.family i >>= fun f =>
    match f with
    | ⟨_, some _, _⟩ => .error (.refused (.secondType name.toList))
    | ⟨_, none, _ :: _⟩ => .error (.refused (.lateType name.toList))
    | ⟨_, none, []⟩ => r.change i fun f => { f with kind := some kind }

def candidates (name : String) : List (String × (Option Family.Kind → Bool)) :=
  (name, Option.isSome) :: ["_bucket", "_sum", "_count"].filterMap fun suffix =>
    (Families.base? suffix name).map fun base => (base, fun kind => Families.owns kind suffix)

def holder (r : Register) : List (String × (Option Family.Kind → Bool)) → Except (Stop Fault) (Option ℕ)
  | [] => .ok none
  | (base, may) :: rest =>
    match r.index.get? base with
    | none => r.holder rest
    | some i => r.family i >>= fun f => if may f.kind then .ok (some i) else r.holder rest

def resolve (r : Register) (name : String) : Except (Stop Fault) (Register × ℕ) :=
  (r.holder (candidates name)).map fun found =>
    match found with
    | some i => (r, i)
    | none => r.place name

def collect (r : Register) (line : ℕ) (s : Sample) : Except (Stop Fault) Register :=
  r.resolve s.name >>= fun p => p.1.change p.2 fun f => { f with samples := f.samples ++ [(line, s)] }

def add (r : Register) (line : ℕ) : Line → Except (Stop Fault) Register
  | .silent => .ok r
  | .kind name k => r.declare name k
  | .sample s => r.collect line s

def read (r : Register) (n : ℕ) : List (List Char) → Except (Stop Error) Register
  | [] => .ok r
  | l :: rest =>
    match (Line.read l).mapError .refused >>= r.add n with
    | .error stop => .error (stop.map fun f => ⟨n, f⟩)
    | .ok r => r.read (n + 1) rest

def Indexed (r : Register) : Prop :=
  ∀ name i, r.index.get? name = some i ↔ ∃ f, r.families[i]? = some f ∧ f.name = name

end Register

variable {fs : Families} {f g : Family} {r r' : Register} {name : String} {i : ℕ} {u : Family → Family}

/-! Families by position -/

namespace Families

def entry (fs : Families) (name : String) : Family := (fs.find name).getD ⟨name, none, []⟩

theorem position?_cons (f : Family) (fs : Families) (name : String) :
    position? (f :: fs) name = if f.name = name then some 0 else (position? fs name).map (· + 1) := by
  rw [position?, List.findIdx?_cons]
  simp only [decide_eq_true_eq, position?]

theorem find_eq_position (fs : Families) (name : String) : fs.find name = (fs.position? name).bind (fs[·]?) := by
  induction fs with
  | nil => rfl
  | cons f fs ih =>
    rw [position?_cons]
    by_cases h : f.name = name
    · simp [find, h]
    · rw [if_neg h, Option.bind_map]
      simpa [find, h, Function.comp_def] using ih

theorem update_eq_position (fs : Families) (name : String) (u : Family → Family) :
    fs.update name u = match fs.position? name with
      | some i => fs.modify i u
      | none => fs ++ [u ⟨name, none, []⟩] := by
  induction fs with
  | nil => rfl
  | cons f fs ih =>
    rw [position?_cons, update]
    by_cases h : f.name = name
    · simp [h]
    · rw [if_neg h, if_neg h, ih]
      cases position? fs name <;> simp

end Families

theorem getElem?_concat : (fs ++ [f])[i]? = some g ↔ fs[i]? = some g ∨ i = fs.length ∧ f = g := by grind

theorem modify_concat (fs : Families) (f : Family) (u : Family → Family) :
    (fs ++ [f]).modify fs.length u = fs ++ [u f] := by
  induction fs with
  | nil => rfl
  | cons g fs ih => simp [ih]

namespace Register

theorem family_eq (h : r.families[i]? = some f) : r.family i = .ok f := by
  rw [family, h]

theorem change_eq (h : r.families[i]? = some f) (u : Family → Family) :
    r.change i u = .ok { r with families := r.families.modify i u } := by
  rw [change, family_eq h]
  rfl

namespace Indexed

theorem unique (h : r.Indexed) {j : ℕ} (hf : r.families[i]? = some f) (hg : r.families[j]? = some g)
    (hn : f.name = g.name) : i = j := by
  have hi := (h g.name i).mpr ⟨f, hf, hn⟩
  have hj := (h g.name j).mpr ⟨g, hg, rfl⟩
  exact Option.some.inj (hi.symm.trans hj)

theorem position (h : r.Indexed) (name : String) : r.families.position? name = r.index.get? name := by
  cases hi : r.index.get? name with
  | none =>
    rw [Families.position?, List.findIdx?_eq_none_iff]
    intro f hf
    obtain ⟨i, hf⟩ := List.mem_iff_getElem?.mp hf
    apply decide_eq_false
    rintro rfl
    rw [(h f.name i).mpr ⟨f, hf, rfl⟩] at hi
    cases hi
  | some i =>
    obtain ⟨f, hf, hn⟩ := (h name i).mp hi
    obtain ⟨hlt, hat⟩ := List.getElem?_eq_some_iff.mp hf
    rw [Families.position?, List.findIdx?_eq_some_iff_getElem]
    refine ⟨hlt, by simp [hat, hn], fun j hj hg => ?_⟩
    have hsame :=
      h.unique hf (List.getElem?_eq_getElem (Nat.lt_trans hj hlt)) (hn.trans (of_decide_eq_true hg).symm)
    omega

theorem find (h : r.Indexed) (name : String) :
    r.families.find name = (r.index.get? name).bind (r.families[·]?) := by
  rw [Families.find_eq_position, h.position]

theorem names_nodup (h : r.Indexed) : (r.families.map (·.name)).Nodup := by
  rw [List.Nodup, List.pairwise_map, List.pairwise_iff_getElem]
  intro i j hi hj hlt hn
  have hsame := h.unique (List.getElem?_eq_getElem hi) (List.getElem?_eq_getElem hj) hn
  omega

theorem empty : Register.empty.Indexed := by
  intro name i
  simp [Register.empty]

theorem modify (h : r.Indexed) (hu : ∀ f, (u f).name = f.name) (i : ℕ) :
    Indexed { r with families := r.families.modify i u } := by
  intro name j
  rw [h name j, List.getElem?_modify]
  cases r.families[j]? with
  | none => simp
  | some f => by_cases hj : i = j <;> simp [hj, hu]

theorem concat (h : r.Indexed) (hn : r.index.get? f.name = none) :
    Indexed ⟨r.families ++ [f], r.index.insert f.name r.families.length⟩ := by
  intro name j
  rw [Dict.get?_insert]
  by_cases hf : name = f.name
  · subst hf
    rw [if_pos rfl]
    constructor
    · rintro ⟨⟩
      exact ⟨f, getElem?_concat.mpr (.inr ⟨rfl, rfl⟩), rfl⟩
    · rintro ⟨g, hg, he⟩
      rcases getElem?_concat.mp hg with hg | ⟨rfl, -⟩
      · rw [(h f.name j).mpr ⟨g, hg, he⟩] at hn
        cases hn
      · rfl
  · rw [if_neg hf, h name j]
    constructor
    · rintro ⟨g, hg, he⟩
      exact ⟨g, getElem?_concat.mpr (.inl hg), he⟩
    · rintro ⟨g, hg, he⟩
      rcases getElem?_concat.mp hg with hg | ⟨-, rfl⟩
      · exact ⟨g, hg, he⟩
      · exact absurd he.symm hf

end Indexed

def Keeps (r r' : Register) : Prop := ∀ name i, r.index.get? name = some i → r'.index.get? name = some i

structure Placed (r : Register) (name : String) (r' : Register) (i : ℕ) : Prop where
  indexed : r'.Indexed
  keeps : r.Keeps r'
  family : r'.families[i]? = some (r.families.entry name)
  modify : ∀ u, r'.families.modify i u = r.families.update name u

namespace Indexed

theorem place (h : r.Indexed) (name : String) : Placed r name (r.place name).1 (r.place name).2 := by
  cases hi : r.index.get? name with
  | some i =>
    obtain ⟨f, hf, hn⟩ := (h name i).mp hi
    rw [Register.place, hi]
    refine ⟨h, fun _ _ hj => hj, ?_, fun u => ?_⟩
    · rw [Families.entry, h.find, hi, Option.bind_some, hf, Option.getD_some]
    · rw [Families.update_eq_position, h.position, hi]
  | none =>
    rw [Register.place, hi]
    refine ⟨h.concat (f := ⟨name, none, []⟩) hi, fun base j hj => ?_, ?_, fun u => ?_⟩
    · rw [Dict.get?_insert, if_neg, hj]
      rintro rfl
      rw [hj] at hi
      cases hi
    · rw [Families.entry, h.find, hi]
      exact getElem?_concat.mpr (.inr ⟨rfl, rfl⟩)
    · rw [Families.update_eq_position, h.position, hi]
      exact modify_concat _ _ _

end Indexed

/-! Reading lines -/

/-- A step of a register does the same as a step of its families alone. -/
inductive Follows {ε : Type} (r : Register) : Except (Stop ε) Register → Except ε Families → Prop
  | done {r' : Register} (h : r'.Indexed) (hk : r.Keeps r') : Follows r (.ok r') (.ok r'.families)
  | refused (e : ε) : Follows r (.error (.refused e)) (.error e)

theorem Follows.after {ε : Type} {x : Except (Stop ε) Register} {y : Except ε Families} (h : Follows r' x y)
    (hk : r.Keeps r') : Follows r x y := by
  cases h with
  | done hi hk' => exact .done hi fun name i hr => hk' name i (hk name i hr)
  | refused e => exact .refused e

namespace Placed

theorem change (h : Placed r name r' i) (hu : ∀ f, (u f).name = f.name) :
    Follows r (r'.change i u) (.ok (r.families.update name u)) := by
  rw [change_eq h.family, ← h.modify]
  exact .done (h.indexed.modify hu i) h.keeps

end Placed

namespace Indexed

theorem declare (h : r.Indexed) (name : String) (kind : Family.Kind) :
    Follows r (r.declare name kind) (r.families.declare name kind) := by
  have hp := h.place name
  rw [Register.declare, Families.declare]
  simp only
  rw [family_eq hp.family, Families.entry]
  cases hf : r.families.find name with
  | none => exact hp.change fun _ => rfl
  | some f =>
    obtain ⟨fname, fkind, samples⟩ := f
    cases fkind with
    | some k => exact .refused _
    | none =>
      cases samples with
      | cons o rest => exact .refused _
      | nil => exact hp.change fun _ => rfl

theorem holder (h : r.Indexed) {among : List (String × (Option Family.Kind → Bool))}
    (hn : ∀ c ∈ among, c.2 none = false) :
    r.holder among = .ok ((among.find? fun c => c.2 (r.families.kind? c.1)).bind fun c => r.index.get? c.1) := by
  induction among with
  | nil => rfl
  | cons c rest ih =>
    obtain ⟨hc, hrest⟩ := List.forall_mem_cons.mp hn
    rw [Register.holder, List.find?_cons, Families.kind?, h.find]
    cases hi : r.index.get? c.1 with
    | none => simp [hc, ih hrest]
    | some i =>
      obtain ⟨f, hf, -⟩ := (h c.1 i).mp hi
      simp only [family_eq hf, hf, Option.bind_some, bind, Except.bind]
      by_cases hm : c.2 f.kind = true
      · simp [hm, hi]
      · simp [hm, ih hrest]

end Indexed

theorem candidates_typed : ∀ c ∈ candidates name, c.2 none = false := by
  intro c hc
  rcases List.mem_cons.mp hc with rfl | hc
  · rfl
  · obtain ⟨suffix, -, hs⟩ := List.mem_filterMap.mp hc
    obtain ⟨base, -, rfl⟩ := Option.map_eq_some_iff.mp hs
    rfl

theorem owner_eq_candidates (fs : Families) (name : String) : fs.owner name =
    (((candidates name).find? fun c => c.2 (fs.kind? c.1)).map (·.1)).getD name := by
  have series (suffixes : List String) : (suffixes.findSome? fun suffix =>
      (Families.base? suffix name).filter fun base => Families.owns (fs.kind? base) suffix) =
      ((suffixes.filterMap fun suffix => (Families.base? suffix name).map fun base =>
        (base, fun kind => Families.owns kind suffix)).find? fun c => c.2 (fs.kind? c.1)).map (·.1) := by
    induction suffixes with
    | nil => rfl
    | cons suffix rest ih =>
      rw [List.findSome?_cons, List.filterMap_cons]
      cases hb : Families.base? suffix name with
      | none => exact ih
      | some base =>
        simp only [Option.map_some, List.find?_cons, Option.filter_some]
        cases ho : Families.owns (fs.kind? base) suffix with
        | true => rfl
        | false => exact ih
  rw [Families.owner, candidates, List.find?_cons]
  by_cases hk : (fs.kind? name).isSome = true
  · simp [hk]
  · rw [if_neg hk, series]
    simp [hk]

namespace Indexed

theorem resolve (h : r.Indexed) (name : String) : r.resolve name = .ok (r.place (r.families.owner name)) := by
  rw [Register.resolve, h.holder candidates_typed, owner_eq_candidates]
  cases hc : (candidates name).find? fun c => c.2 (r.families.kind? c.1) with
  | none => rfl
  | some c =>
    have hm : c.2 (r.families.kind? c.1) = true := by simpa using List.find?_some hc
    rw [Families.kind?, h.find] at hm
    cases hi : r.index.get? c.1 with
    | none =>
      rw [hi, Option.bind_none, Option.bind_none, candidates_typed c (List.mem_of_find?_eq_some hc)] at hm
      cases hm
    | some i => simp [Except.map, Register.place, hi]

theorem collect (h : r.Indexed) (line : ℕ) (s : Sample) :
    Follows r (r.collect line s) (.ok (r.families.collect line s)) := by
  rw [Register.collect, h.resolve, Families.collect]
  exact (h.place _).change fun _ => rfl

theorem add (h : r.Indexed) (n : ℕ) (l : Line) : Follows r (r.add n l) (r.families.add n l) := by
  cases l with
  | silent => exact .done h fun _ _ hi => hi
  | kind name k => exact h.declare name k
  | sample s => exact h.collect n s

theorem read (h : r.Indexed) (n : ℕ) (texts : List (List Char)) :
    Follows r (r.read n texts) (r.families.read n texts) := by
  induction texts generalizing r n with
  | nil => exact .done h fun _ _ hi => hi
  | cons t rest ih =>
    rw [Register.read, Families.read]
    cases ht : Line.read t with
    | error fault => exact .refused _
    | ok l =>
      have ha := h.add n l
      simp only [Except.mapError, bind, Except.bind]
      generalize hx : r.add n l = x at ha ⊢
      generalize hy : r.families.add n l = y at ha ⊢
      cases ha with
      | refused fault => exact .refused _
      | done hi hk => exact (ih hi (n + 1)).after hk

end Indexed

end Register

end ScrapeRelay.Exposition

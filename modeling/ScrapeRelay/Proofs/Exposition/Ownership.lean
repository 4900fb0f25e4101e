import Mathlib.Data.List.Induction
import ScrapeRelay.Exposition.Family

/-!
Which family owns a sample, said of the lines alone: what a line adds depends on the `TYPE` lines
before it. The families that are read from accepted lines are the table of their first mentions, each
with its type and its samples.
-/

namespace ScrapeRelay.Exposition

def declared (ls : List Line) (name : String) : Option Family.Kind :=
  ls.findSome? fun l =>
    match l with
    | .kind f k => if f = name then some k else none
    | _ => none

def suffixes : Family.Kind → List String
  | .histogram => ["_bucket", "_sum", "_count"]
  | .summary => ["_sum", "_count"]
  | _ => []

def holdsSeries (ls : List Line) (base name : String) : Bool :=
  match declared ls base with
  | some k => (suffixes k).any fun suffix => name = base ++ suffix
  | none => false

def typedNames (ls : List Line) : List String :=
  ls.filterMap fun l =>
    match l with
    | .kind f _ => some f
    | _ => none

/-- The family of a sample that follows some lines: that of its own name if it has a type, else the
histogram or summary whose series it is, else that of its own name. -/
def ownerAfter (ls : List Line) (name : String) : String :=
  if (declared ls name).isSome then name
  else ((typedNames ls).find? fun base => holdsSeries ls base name).getD name

def scan {α : Type} (f : List Line → Line → Option α) (before : List Line) : List Line → List α
  | [] => []
  | l :: rest => (f before l).toList ++ scan f (before ++ [l]) rest

def mentionAt (before : List Line) : Line → Option String
  | .silent => none
  | .kind f _ => some f
  | .sample s => some (ownerAfter before s.name)

def ownedAt (before : List Line) : Line → Option (String × Nat × Sample)
  | .sample s => some (ownerAfter before s.name, before.length + 1, s)
  | _ => none

def mentions (ls : List Line) : List String := scan mentionAt [] ls

def familyNames (ls : List Line) : List String := (mentions ls).eraseDups

def samplesOf (ls : List Line) (name : String) : List (Nat × Sample) :=
  (scan ownedAt [] ls).filterMap fun o => if o.1 = name then some o.2 else none

def familyOf (ls : List Line) (name : String) : Family := ⟨name, declared ls name, samplesOf ls name⟩

def table (ls : List Line) : Families := (familyNames ls).map (familyOf ls)

/-! One more line -/

theorem scan_concat {α : Type} (f : List Line → Line → Option α) (before ls : List Line) (l : Line) :
    scan f before (ls ++ [l]) = scan f before ls ++ (f (before ++ ls) l).toList := by
  induction ls generalizing before with
  | nil => simp [scan]
  | cons a rest ih => simp [scan, ih, List.append_assoc]

theorem mentions_concat (ls : List Line) (l : Line) :
    mentions (ls ++ [l]) = mentions ls ++ (mentionAt ls l).toList := scan_concat mentionAt [] ls l

theorem eraseDups_concat (names : List String) (name : String) :
    (names ++ [name]).eraseDups = if name ∈ names then names.eraseDups else names.eraseDups ++ [name] := by
  rw [List.eraseDups_append]
  by_cases h : name ∈ names <;> simp [List.removeAll, List.eraseDups_cons, h]

theorem eraseDups_nodup (names : List String) : names.eraseDups.Nodup := by
  induction names using List.reverseRecOn with
  | nil => simp
  | append_singleton rest name ih =>
    rw [eraseDups_concat]
    split
    · exact ih
    · rename_i h
      exact List.nodup_append.mpr ⟨ih, by simp, by
        intro a ha b hb
        obtain rfl := List.mem_singleton.mp hb
        rintro rfl
        exact h (List.mem_eraseDups.mp ha)⟩

theorem samplesOf_concat (ls : List Line) (l : Line) (name : String) :
    samplesOf (ls ++ [l]) name = samplesOf ls name ++
      (ownedAt ls l).toList.filterMap fun o => if o.1 = name then some o.2 else none := by
  simp only [samplesOf, scan_concat, List.nil_append, List.filterMap_append]

theorem declared_concat (ls : List Line) (l : Line) (name : String) :
    declared (ls ++ [l]) name = (declared ls name).or (declared [l] name) := by
  simp only [declared, List.findSome?_append]

theorem declared_mentioned {ls : List Line} {name : String} (h : (declared ls name).isSome) :
    name ∈ mentions ls := by
  induction ls using List.reverseRecOn with
  | nil => simp [declared] at h
  | append_singleton rest l ih =>
    rw [mentions_concat, List.mem_append]
    rw [declared_concat, Option.isSome_or, Bool.or_eq_true] at h
    rcases h with h | h
    · exact .inl (ih h)
    · right
      cases l <;> simp_all [declared, mentionAt]

theorem declared_typedNames {ls : List Line} {name : String} (h : (declared ls name).isSome) :
    name ∈ typedNames ls := by
  obtain ⟨k, hk⟩ := Option.isSome_iff_exists.mp h
  obtain ⟨l, hl, hk⟩ := List.exists_of_findSome?_eq_some hk
  refine List.mem_filterMap.mpr ⟨l, hl, ?_⟩
  cases l <;> simp_all

/-! The owner -/

theorem base?_eq_some {suffix name base : String} (h : Families.base? suffix name = some base) :
    name = base ++ suffix := by
  rw [Families.base?] at h
  split at h
  · rename_i hs
    obtain ⟨t, ht⟩ := List.isSuffixOf_iff_suffix.mp hs
    obtain rfl := Option.some.inj h
    apply String.toList_injective
    simp [← ht]
  · simp at h

theorem base?_append (base suffix : String) : Families.base? suffix (base ++ suffix) = some base := by
  rw [Families.base?]
  rw [if_pos (List.isSuffixOf_iff_suffix.mpr ⟨base.toList, by simp⟩)]
  simp

theorem suffix_unique {a b s t : String} (hs : s ∈ suffixes .histogram) (ht : t ∈ suffixes .histogram)
    (h : a ++ s = b ++ t) : s = t := by
  have ending (x : String) {u : String} (hu : u ∈ suffixes .histogram) :
      (x ++ u).toList.reverse.take 2 = u.toList.reverse.take 2 := by
    have hl : ∀ v ∈ suffixes .histogram, 2 ≤ v.toList.length := by decide
    rw [String.toList_append, List.reverse_append, List.take_append_of_le_length (by simpa using hl u hu)]
  have distinct : ∀ u ∈ suffixes .histogram, ∀ v ∈ suffixes .histogram,
      u.toList.reverse.take 2 = v.toList.reverse.take 2 → u = v := by decide
  exact distinct s hs t ht (by rw [← ending a hs, h, ending b ht])

theorem suffixes_subset {k : Family.Kind} {s : String} (h : s ∈ suffixes k) : s ∈ suffixes .histogram := by
  cases k <;> simp_all [suffixes]

theorem owns_iff {kind? : Option Family.Kind} {s : String} (hs : s ∈ suffixes .histogram) :
    Families.owns kind? s = true ↔ ∃ k, kind? = some k ∧ s ∈ suffixes k := by
  simp only [suffixes, List.mem_cons, List.not_mem_nil, or_false] at hs
  rcases kind? with - | (_ | _ | _ | _ | _) <;> rcases hs with rfl | rfl | rfl <;> simp [Families.owns, suffixes]

theorem holdsSeries_iff {ls : List Line} {base name : String} :
    holdsSeries ls base name = true ↔ ∃ s ∈ suffixes .histogram, name = base ++ s ∧
      Families.owns (declared ls base) s = true := by
  rw [holdsSeries]
  constructor
  · intro h
    split at h
    · rename_i k hk
      obtain ⟨s, hs, hn⟩ := List.any_eq_true.mp h
      have hh := suffixes_subset hs
      exact ⟨s, hh, of_decide_eq_true hn, (owns_iff hh).mpr ⟨k, hk, hs⟩⟩
    · simp at h
  · rintro ⟨s, hs, rfl, ho⟩
    obtain ⟨k, hk, hm⟩ := (owns_iff hs).mp ho
    rw [hk]
    exact List.any_eq_true.mpr ⟨s, hm, by simp⟩

theorem holdsSeries_unique {ls : List Line} {a b name : String} (ha : holdsSeries ls a name = true)
    (hb : holdsSeries ls b name = true) : a = b := by
  obtain ⟨s, hs, hn, -⟩ := holdsSeries_iff.mp ha
  obtain ⟨t, ht, hm, -⟩ := holdsSeries_iff.mp hb
  obtain rfl := suffix_unique hs ht (hn ▸ hm)
  apply String.toList_injective
  simpa using congrArg String.toList (hn.symm.trans hm)

theorem find?_holdsSeries {ls : List Line} {base name : String} (h : holdsSeries ls base name = true) :
    (typedNames ls).find? (fun base => holdsSeries ls base name) = some base := by
  have hb : base ∈ typedNames ls := by
    apply declared_typedNames
    cases hd : declared ls base with
    | none => simp [holdsSeries, hd] at h
    | some k => rfl
  cases hf : (typedNames ls).find? fun base => holdsSeries ls base name with
  | none => exact absurd h (by simpa using List.find?_eq_none.mp hf base hb)
  | some other =>
    have ho : holdsSeries ls other name = true := List.find?_some (p := fun base => holdsSeries ls base name) hf
    rw [holdsSeries_unique ho h]

theorem owner_eq_ownerAfter {fs : Families} {ls : List Line} (hk : ∀ name, fs.kind? name = declared ls name)
    (name : String) : fs.owner name = ownerAfter ls name := by
  unfold Families.owner ownerAfter
  simp only [hk]
  split
  · rfl
  · congr 1
    let series (suffix : String) : Option String :=
      (Families.base? suffix name).filter fun base => Families.owns (declared ls base) suffix
    have sound : ∀ s ∈ suffixes .histogram, ∀ base, series s = some base →
        holdsSeries ls base name = true := by
      intro s hs base hb
      obtain ⟨hb, ho⟩ := Option.filter_eq_some_iff.mp hb
      exact holdsSeries_iff.mpr ⟨s, hs, base?_eq_some hb, ho⟩
    change (suffixes .histogram).findSome? series = _
    cases hf : (suffixes .histogram).findSome? series with
    | some base =>
      obtain ⟨s, hs, hb⟩ := List.exists_of_findSome?_eq_some hf
      exact (find?_holdsSeries (sound s hs base hb)).symm
    | none =>
      refine (List.find?_eq_none.mpr fun base _ h => ?_).symm
      obtain ⟨s, hs, rfl, ho⟩ := holdsSeries_iff.mp h
      have := List.findSome?_eq_none_iff.mp hf s hs
      simp [series, base?_append, ho] at this

/-! The table of families -/

theorem mem_familyNames {ls : List Line} {name : String} : name ∈ familyNames ls ↔ name ∈ mentions ls :=
  List.mem_eraseDups

theorem familyNames_nodup (ls : List Line) : (familyNames ls).Nodup := eraseDups_nodup (mentions ls)

theorem find_map (names : List String) (g : String → Family) (hg : ∀ f, (g f).name = f) (name : String) :
    Families.find (names.map g) name = if name ∈ names then some (g name) else none := by
  induction names with
  | nil => simp [Families.find]
  | cons a rest ih =>
    rw [Families.find] at ih ⊢
    rw [List.map_cons, List.find?_cons, hg]
    by_cases h : a = name
    · simp [h]
    · simp [h, ih, Ne.symm h]

theorem find_table (ls : List Line) (name : String) :
    (table ls).find name = if name ∈ mentions ls then some (familyOf ls name) else none := by
  rw [table, find_map (familyNames ls) (familyOf ls) (fun _ => rfl)]
  simp only [mem_familyNames]

theorem kind?_table (ls : List Line) (name : String) : (table ls).kind? name = declared ls name := by
  rw [Families.kind?, find_table]
  split
  · rfl
  · rename_i h
    cases hd : declared ls name with
    | none => rfl
    | some k => exact absurd (declared_mentioned (by simp [hd])) h

theorem owner_table (ls : List Line) (name : String) : (table ls).owner name = ownerAfter ls name :=
  owner_eq_ownerAfter (kind?_table ls) name

theorem update_map {names : List String} (hn : names.Nodup) (g : String → Family) (hg : ∀ f, (g f).name = f)
    (name : String) (f : Family → Family) :
    Families.update name f (names.map g) =
      if name ∈ names then names.map fun a => if a = name then f (g a) else g a
      else names.map g ++ [f ⟨name, none, []⟩] := by
  induction names with
  | nil => simp [Families.update]
  | cons a rest ih =>
    obtain ⟨ha, hr⟩ := List.nodup_cons.mp hn
    simp only [List.map_cons, Families.update, hg]
    by_cases h : a = name
    · subst h
      have same : rest.map (fun b => if b = a then f (g b) else g b) = rest.map g := by
        apply List.map_congr_left
        intro b hb
        have hne : b ≠ a := fun e => ha (e ▸ hb)
        rw [if_neg hne]
      simp [same]
    · rw [if_neg h, ih hr]
      by_cases hm : name ∈ rest <;> simp [hm, h, Ne.symm h]

theorem samplesOf_unmentioned {ls : List Line} {name : String} (h : name ∉ mentions ls) :
    samplesOf ls name = [] := by
  induction ls using List.reverseRecOn with
  | nil => rfl
  | append_singleton rest l ih =>
    rw [mentions_concat, List.mem_append, not_or] at h
    rw [samplesOf_concat, ih h.1]
    cases l with
    | silent => rfl
    | kind f k => rfl
    | sample s =>
      have ho : ownerAfter rest s.name ≠ name := fun e => h.2 (by simp [mentionAt, e])
      simp [ownedAt, ho]

theorem familyOf_unmentioned {ls : List Line} {name : String} (h : name ∉ mentions ls) :
    familyOf ls name = ⟨name, none, []⟩ := by
  have hd : declared ls name = none := by
    cases hd : declared ls name with
    | none => rfl
    | some k => exact absurd (declared_mentioned (by simp [hd])) h
  rw [familyOf, hd, samplesOf_unmentioned h]

theorem table_update {ls : List Line} {l : Line} {name : String} {f : Family → Family}
    (hm : mentionAt ls l = some name) (same : ∀ a, a ≠ name → familyOf (ls ++ [l]) a = familyOf ls a)
    (changed : familyOf (ls ++ [l]) name = f (familyOf ls name)) :
    (table ls).update name f = table (ls ++ [l]) := by
  have names : familyNames (ls ++ [l]) =
      if name ∈ mentions ls then familyNames ls else familyNames ls ++ [name] := by
    simp only [familyNames, mentions_concat, hm, Option.toList_some, eraseDups_concat]
  rw [table, table, update_map (familyNames_nodup ls) _ (fun _ => rfl), names]
  simp only [mem_familyNames]
  by_cases h : name ∈ mentions ls
  · rw [if_pos h, if_pos h]
    apply List.map_congr_left
    intro a _
    by_cases e : a = name
    · rw [if_pos e, e, changed]
    · rw [if_neg e, same a e]
  · rw [if_neg h, if_neg h, List.map_append, List.map_singleton, changed, familyOf_unmentioned h]
    congr 1
    apply List.map_congr_left
    intro a ha
    exact (same a fun e => h (mem_familyNames.mp (e ▸ ha))).symm

theorem table_silent (ls : List Line) : table (ls ++ [.silent]) = table ls := by
  have names : familyNames (ls ++ [.silent]) = familyNames ls := by simp [familyNames, mentions_concat, mentionAt]
  rw [table, table, names]
  apply List.map_congr_left
  intro a _
  simp [familyOf, samplesOf_concat, declared, ownedAt]

theorem table_declare {ls : List Line} {name : String} {k : Family.Kind} {fs : Families}
    (h : (table ls).declare name k = .ok fs) : fs = table (ls ++ [.kind name k]) := by
  have untyped : declared ls name = none := by
    cases hd : declared ls name with
    | none => rfl
    | some j =>
      have hm : name ∈ mentions ls := declared_mentioned (by simp [hd])
      simp [Families.declare, find_table, hm, familyOf, hd] at h
  have hu : fs = (table ls).update name fun f => { f with kind := some k } := by
    rw [Families.declare] at h
    split at h
    · simp at h
    · simp at h
    · exact (Except.ok.inj h).symm
  rw [hu]
  apply table_update rfl
  · intro a ha
    simp [familyOf, samplesOf_concat, declared, ownedAt, Ne.symm ha]
  · rw [familyOf, familyOf, declared_concat, samplesOf_concat, untyped]
    simp [declared, ownedAt]

theorem table_collect (ls : List Line) (s : Sample) :
    (table ls).collect (ls.length + 1) s = table (ls ++ [.sample s]) := by
  rw [Families.collect]
  rw [owner_table]
  apply table_update rfl
  · intro a ha
    simp [familyOf, samplesOf_concat, declared, ownedAt, Ne.symm ha]
  · rw [familyOf, familyOf, declared_concat, samplesOf_concat]
    simp [declared, ownedAt]

theorem table_add {ls : List Line} {l : Line} {fs : Families} (h : (table ls).add (ls.length + 1) l = .ok fs) :
    fs = table (ls ++ [l]) := by
  cases l with
  | silent => rw [table_silent, ← Except.ok.inj h]
  | kind f k => exact table_declare h
  | sample s => rw [← table_collect, ← Except.ok.inj h]

theorem read_table {before : List Line} {texts : List (List Char)} {fs : Families}
    (h : (table before).read (before.length + 1) texts = .ok fs) :
    ∃ ls, texts.mapM Line.read = .ok ls ∧ fs = table (before ++ ls) := by
  induction texts generalizing before with
  | nil => exact ⟨[], rfl, by rw [List.append_nil, ← Except.ok.inj h]⟩
  | cons t rest ih =>
    rw [Families.read] at h
    cases hl : Line.read t with
    | error f => simp [hl, bind, Except.bind] at h
    | ok l =>
      cases ha : (table before).add (before.length + 1) l with
      | error f => simp [hl, ha, bind, Except.bind] at h
      | ok next =>
        obtain rfl := table_add ha
        simp only [hl, ha, bind, Except.bind] at h
        have hn : (before ++ [l]).length + 1 = before.length + 1 + 1 := by simp
        obtain ⟨ls, hr, rfl⟩ := ih (hn ▸ h)
        exact ⟨l :: ls, by simp [List.mapM_cons, hl, hr, bind, Except.bind, pure, Except.pure], by simp⟩

end ScrapeRelay.Exposition

import ScrapeRelay.Proofs.Exposition.Register

/-!
What holds of the families whenever some lines have been read: a family has a type or a sample, it has samples
of its own series only, and their lines are in order. Further lines leave it where it is, with the type and the
samples that it has.
-/

namespace ScrapeRelay.Exposition

variable {fs gs last : Families} {f g : Family} {name : String} {i n : ℕ} {l : Line} {s : Sample}
  {texts : List (List Char)} {u : Family → Family}

def Family.HasSeries (f : Family) (name : String) : Prop :=
  name = f.name ∨ ∃ k, f.kind = some k ∧ ∃ suffix ∈ suffixes k, name = f.name ++ suffix

structure Family.Filed (n : ℕ) (f : Family) : Prop where
  series : ∀ o ∈ f.samples, f.HasSeries o.2.name
  lines : ∀ o ∈ f.samples, 1 ≤ o.1 ∧ o.1 < n
  ordered : f.samples.Pairwise fun o p => o.1 < p.1

structure Family.Sound (n : ℕ) (f : Family) : Prop extends f.Filed n where
  mentioned : f.kind = none → f.samples ≠ []

structure Family.StaysIn (f g : Family) : Prop where
  name : g.name = f.name
  kind : ∀ k, f.kind = some k → g.kind = some k
  samples : f.samples <+: g.samples

def Families.StaysIn (fs gs : Families) : Prop :=
  ∀ (i : ℕ) (f : Family), fs[i]? = some f → ∃ g, gs[i]? = some g ∧ f.StaysIn g

theorem Family.StaysIn.refl (f : Family) : f.StaysIn f := ⟨rfl, fun _ hk => hk, List.prefix_refl _⟩

theorem Families.StaysIn.refl (fs : Families) : fs.StaysIn fs := fun _ f hf => ⟨f, hf, .refl f⟩

theorem Families.StaysIn.trans (hf : fs.StaysIn gs) (hg : gs.StaysIn last) : fs.StaysIn last := by
  intro i f hi
  obtain ⟨g, hi, h⟩ := hf i f hi
  obtain ⟨e, hi, h'⟩ := hg i g hi
  exact ⟨e, hi, h'.name.trans h.name, fun k hk => h'.kind k (h.kind k hk), h.samples.trans h'.samples⟩

/-! One family changes -/

namespace Families

theorem entry_name (fs : Families) (name : String) : (fs.entry name).name = name := by
  rw [entry]
  cases hf : fs.find name with
  | none => rfl
  | some f => simpa using List.find?_some hf

theorem entry_kind (fs : Families) (name : String) : (fs.entry name).kind = fs.kind? name := by
  rw [entry, kind?]
  cases fs.find name <;> rfl

theorem entry_at (hp : fs.position? name = some i) (hf : fs[i]? = some f) : fs.entry name = f := by
  rw [entry, find_eq_position, hp, Option.bind_some, hf, Option.getD_some]

theorem mem_update (hg : g ∈ fs.update name u) : g ∈ fs ∨ g = u (fs.entry name) := by
  rw [update_eq_position] at hg
  cases hp : fs.position? name with
  | none =>
    have hnew : fs.entry name = ⟨name, none, []⟩ := by rw [entry, find_eq_position, hp]; rfl
    rw [hp] at hg
    rcases List.mem_append.mp hg with hg | hg
    · exact .inl hg
    · exact .inr (hnew ▸ List.mem_singleton.mp hg)
  | some j =>
    rw [hp] at hg
    obtain ⟨i, hg⟩ := List.mem_iff_getElem?.mp hg
    rw [List.getElem?_modify] at hg
    obtain ⟨f, hf, rfl⟩ := Option.map_eq_some_iff.mp hg
    by_cases hj : j = i
    · rw [if_pos hj, entry_at hp (hj ▸ hf)]
      exact .inr rfl
    · rw [if_neg hj]
      exact .inl (List.mem_iff_getElem?.mpr ⟨i, hf⟩)

theorem update_stays (hu : (fs.entry name).StaysIn (u (fs.entry name))) : fs.StaysIn (fs.update name u) := by
  intro i f hf
  rw [update_eq_position]
  cases hp : fs.position? name with
  | none => exact ⟨f, getElem?_concat.mpr (.inl hf), .refl f⟩
  | some j =>
    rw [List.getElem?_modify, hf, Option.map_eq_map, Option.map_some]
    by_cases hj : j = i
    · rw [if_pos hj]
      rw [entry_at hp (hj ▸ hf)] at hu
      exact ⟨u f, rfl, hu⟩
    · rw [if_neg hj]
      exact ⟨f, rfl, .refl f⟩

theorem add_cases (ha : fs.add n l = .ok gs) :
    (l = .silent ∧ gs = fs) ∨
    (∃ name k, l = .kind name k ∧ (fs.entry name).kind = none ∧ (fs.entry name).samples = [] ∧
      gs = fs.update name fun f => { f with kind := some k }) ∨
    ∃ s, l = .sample s ∧ gs = fs.update (fs.owner s.name)
      fun f => { f with samples := f.samples ++ [(n, s)] } := by
  cases l with
  | silent => exact .inl ⟨rfl, (Except.ok.inj ha).symm⟩
  | sample s => exact .inr (.inr ⟨s, rfl, (Except.ok.inj ha).symm⟩)
  | kind name k =>
    refine .inr (.inl ⟨name, k, rfl, ?_⟩)
    rw [add, declare] at ha
    rw [entry]
    split at ha
    · cases ha
    · cases ha
    · rename_i typed sampled
      refine ⟨?_, ?_, (Except.ok.inj ha).symm⟩
      all_goals
        cases hf : fs.find name with
        | none => rfl
        | some f =>
          obtain ⟨fname, kind, samples⟩ := f
          cases kind with
          | some k' => exact absurd hf (typed fname k' samples)
          | none =>
            cases samples with
            | nil => rfl
            | cons o rest => exact absurd hf (sampled fname o rest)

end Families

/-! Samples and their families -/

theorem owner_series (fs : Families) (name : String) : (fs.entry (fs.owner name)).HasSeries name := by
  rw [Family.HasSeries, Families.entry_name, Families.entry_kind]
  by_cases hk : (fs.kind? name).isSome = true
  · left
    rw [Families.owner, if_pos hk]
  · have ho : fs.owner name = ((suffixes .histogram).findSome? fun suffix =>
        (Families.base? suffix name).filter fun base => Families.owns (fs.kind? base) suffix).getD name := by
      rw [Families.owner, if_neg hk]
      rfl
    rw [ho]
    cases hs : (suffixes .histogram).findSome? fun suffix =>
        (Families.base? suffix name).filter fun base => Families.owns (fs.kind? base) suffix with
    | none => exact .inl rfl
    | some base =>
      obtain ⟨suffix, hm, hb⟩ := List.exists_of_findSome?_eq_some hs
      obtain ⟨hb, ho⟩ := Option.filter_eq_some_iff.mp hb
      obtain ⟨k, hk, hk'⟩ := (owns_iff hm).mp ho
      exact .inr ⟨k, hk, suffix, hk', base?_eq_some hb⟩

namespace Family

theorem Filed.later (h : f.Filed n) : f.Filed (n + 1) :=
  ⟨h.series, fun o ho => ⟨(h.lines o ho).1, Nat.lt_succ_of_lt (h.lines o ho).2⟩, h.ordered⟩

theorem Filed.file (h : f.Filed n) (hn : 1 ≤ n) (hs : f.HasSeries s.name) :
    Filed (n + 1) { f with samples := f.samples ++ [(n, s)] } where
  series o ho := by
    rcases List.mem_append.mp ho with ho | ho
    · exact h.series o ho
    · rw [List.mem_singleton.mp ho]
      exact hs
  lines o ho := by
    rcases List.mem_append.mp ho with ho | ho
    · exact h.later.lines o ho
    · rw [List.mem_singleton.mp ho]
      exact ⟨hn, Nat.lt_succ_self n⟩
  ordered := by
    apply List.pairwise_append.mpr
    refine ⟨h.ordered, List.pairwise_singleton _ _, fun o ho p hp => ?_⟩
    rw [List.mem_singleton.mp hp]
    exact (h.lines o ho).2

theorem filed_empty (h : f.samples = []) : f.Filed n := by
  refine ⟨?_, ?_, ?_⟩ <;> simp [h]

end Family

namespace Families

theorem entry_filed (h : ∀ f ∈ fs, f.Sound n) (name : String) : (fs.entry name).Filed n := by
  rw [entry]
  cases hf : fs.find name with
  | none => exact Family.filed_empty rfl
  | some f => exact (h f (List.mem_of_find?_eq_some hf)).toFiled

theorem add_sound (h : ∀ f ∈ fs, f.Sound n) (hn : 1 ≤ n) (ha : fs.add n l = .ok gs) :
    ∀ g ∈ gs, g.Sound (n + 1) := by
  have later : ∀ f ∈ fs, f.Sound (n + 1) := fun f hf => ⟨(h f hf).toFiled.later, (h f hf).mentioned⟩
  intro g hg
  rcases add_cases ha with ⟨-, rfl⟩ | ⟨name, k, -, -, hs, rfl⟩ | ⟨s, -, rfl⟩
  · exact later g hg
  · rcases mem_update hg with hg | rfl
    · exact later g hg
    · exact ⟨Family.filed_empty hs, by simp⟩
  · rcases mem_update hg with hg | rfl
    · exact later g hg
    · exact ⟨(entry_filed h _).file hn (owner_series fs s.name), by simp⟩

theorem add_stays (ha : fs.add n l = .ok gs) : fs.StaysIn gs := by
  rcases add_cases ha with ⟨-, rfl⟩ | ⟨name, k, -, hk, -, rfl⟩ | ⟨s, -, rfl⟩
  · exact .refl _
  · apply update_stays
    exact ⟨rfl, fun j hj => absurd (hk.symm.trans hj) (by simp), List.prefix_refl _⟩
  · apply update_stays
    exact ⟨rfl, fun _ hk => hk, List.prefix_append _ _⟩

theorem read_cons {t : List Char} (h : fs.read n (t :: texts) = .ok gs) :
    ∃ l next, Line.read t = .ok l ∧ fs.add n l = .ok next ∧ next.read (n + 1) texts = .ok gs := by
  rw [read] at h
  split at h
  · cases h
  · rename_i next hl
    obtain ⟨l, hl, ha⟩ := Sample.bind_eq_ok hl
    exact ⟨l, next, hl, ha, h⟩

theorem read_sound (h : ∀ f ∈ fs, f.Sound n) (hn : 1 ≤ n) (hr : fs.read n texts = .ok gs) :
    ∀ g ∈ gs, g.Sound (n + texts.length) := by
  induction texts generalizing fs n with
  | nil =>
    obtain rfl := Except.ok.inj hr
    exact h
  | cons t rest ih =>
    obtain ⟨l, next, -, ha, hr⟩ := read_cons hr
    have hs := ih (add_sound h hn ha) (Nat.le_add_left 1 n) hr
    rwa [List.length_cons, Nat.add_comm rest.length, ← Nat.add_assoc]

theorem read_stays (hr : fs.read n texts = .ok gs) : fs.StaysIn gs := by
  induction texts generalizing fs n with
  | nil =>
    obtain rfl := Except.ok.inj hr
    exact .refl _
  | cons t rest ih =>
    obtain ⟨l, next, -, ha, hr⟩ := read_cons hr
    exact (add_stays ha).trans (ih hr)

end Families

namespace Register

variable {r r' : Register} {more : List (List Char)}

structure StaysIn (r r' : Register) : Prop where
  index : r.Keeps r'
  families : r.families.StaysIn r'.families

theorem read_append (r : Register) (n : ℕ) (texts more : List (List Char)) :
    r.read n (texts ++ more) = r.read n texts >>= fun next => next.read (n + texts.length) more := by
  induction texts generalizing r n with
  | nil => rfl
  | cons t rest ih =>
    rw [List.cons_append, read, read]
    split
    · rfl
    · rw [ih, List.length_cons, Nat.add_right_comm, Nat.add_assoc]

theorem Follows.families {ε : Type} {x : Except (Stop ε) Register} {y : Except ε Families} (h : Follows r x y) :
    x.map (·.families) = y.mapError .refused := by
  cases h <;> rfl

theorem read_of_families (hr : Families.read [] 1 texts = .ok fs) :
    ∃ index, read .empty 1 texts = .ok ⟨fs, index⟩ ∧ Indexed ⟨fs, index⟩ := by
  have follows : Follows .empty (read .empty 1 texts) (.ok fs) := hr ▸ Indexed.empty.read 1 texts
  generalize read .empty 1 texts = x at follows
  cases follows with
  | @done r hi _ => exact ⟨r.index, rfl, hi⟩

theorem stays_of_read (hi : r.Indexed) (hr : read .empty 1 texts = .ok r)
    (hr' : read .empty 1 (texts ++ more) = .ok r') : r.StaysIn r' := by
  rw [read_append, hr] at hr'
  have follows : Follows r (.ok r') (r.families.read (1 + texts.length) more) :=
    hr' ▸ hi.read (1 + texts.length) more
  generalize hf : r.families.read (1 + texts.length) more = y at follows
  cases follows with
  | done _ hk => exact ⟨hk, Families.read_stays hf⟩

/-- A register gives what the families alone give, for good or bad, so no position that it uses is out of range.
When lines have been read, its index has the names with their positions and nothing else, and all families are
sound. With more lines each keeps its position, its type and its samples. -/
theorem read_represented (texts : List (List Char)) :
    (read .empty 1 texts).map (·.families) = (Families.read [] 1 texts).mapError .refused ∧
    ∀ fs, Families.read [] 1 texts = .ok fs → (fs.map (·.name)).Nodup ∧
    (∀ f ∈ fs, f.Sound (texts.length + 1)) ∧
      ∃ index, read .empty 1 texts = .ok ⟨fs, index⟩ ∧ Indexed ⟨fs, index⟩ ∧
        (∀ name, index.get? name = fs.position? name) ∧
        ∀ more gs, Families.read [] 1 (texts ++ more) = .ok gs →
          ∃ index', read .empty 1 (texts ++ more) = .ok ⟨gs, index'⟩ ∧
          StaysIn ⟨fs, index⟩ ⟨gs, index'⟩ := by
  refine ⟨(Indexed.empty.read 1 texts).families, fun fs hf => ?_⟩
  obtain ⟨index, hr, hi⟩ := read_of_families hf
  have none : ∀ f ∈ ([] : Families), f.Sound 1 := by simp
  have sound := Families.read_sound none (Nat.le_refl 1) hf
  refine ⟨hi.names_nodup, Nat.add_comm 1 texts.length ▸ sound, index, hr, hi,
    fun name => (hi.position name).symm, ?_⟩
  intro more gs hg
  obtain ⟨index', hr', -⟩ := read_of_families hg
  exact ⟨index', hr', stays_of_read hi hr hr'⟩

def sums : List (List Char) := ["lat_sum 1".toList, "# TYPE lat histogram".toList, "lat_sum 4".toList]

def bucket : List (List Char) := ["lat_bucket\x7ble=\"1\"\x7d 3".toList]

theorem read_represented_sums :
    ∃ fs gs, Families.read [] 1 sums = .ok fs ∧ Families.read [] 1 (sums ++ bucket) = .ok gs ∧
    fs.map (·.name) = ["lat_sum", "lat"] ∧ (∀ f ∈ fs, f.Sound 4) ∧
    ∃ index index', index.get? "lat" = some 1 ∧ StaysIn ⟨fs, index⟩ ⟨gs, index'⟩ := by
  have before : (Families.read [] 1 sums).toOption.map (fun fs => (fs.map (·.name), fs.position? "lat")) =
      some (["lat_sum", "lat"], some 1) := by decide +kernel
  have behind : (Families.read [] 1 (sums ++ bucket)).toOption.isSome = true := by decide +kernel
  cases hf : Families.read [] 1 sums with
  | error e => simp [hf, Except.toOption] at before
  | ok fs =>
    cases hg : Families.read [] 1 (sums ++ bucket) with
    | error e => simp [hg, Except.toOption] at behind
    | ok gs =>
      rw [hf] at before
      obtain ⟨hnames, hlat⟩ := Prod.mk.inj (Option.some.inj before)
      obtain ⟨-, sound, index, -, -, hp, stays⟩ := (read_represented sums).2 fs hf
      obtain ⟨index', -, hs⟩ := stays bucket gs hg
      exact ⟨fs, gs, rfl, rfl, hnames, sound, index, index', (hp "lat").trans hlat, hs⟩

end Register

end ScrapeRelay.Exposition

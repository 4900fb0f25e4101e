import ScrapeRelay.Exposition.Family
import ScrapeRelay.Exposition.Line

/-!
An exposition of gauges in blocks, each with its two comments and its samples, is read block by block: one
family for each block, and one metric for each sample.
-/

namespace ScrapeRelay.Exposition

structure Block where
  name : String
  help : List Char
  kind : List Char
  samples : List (List Char × Sample)

def Block.lines (b : Block) : List (List Char) := b.help :: b.kind :: b.samples.map (·.1)

structure Block.Fits (b : Block) : Prop where
  help : Line.read b.help = .ok .silent
  kind : Line.read b.kind = .ok (.kind b.name .gauge)
  samples : ∀ t ∈ b.samples, Line.read t.1 = .ok (.sample t.2) ∧ t.2.name = b.name

def Block.numbered (n : Nat) : List (List Char × Sample) → List (Nat × Sample)
  | [] => []
  | t :: rest => (n, t.2) :: numbered (n + 1) rest

def Block.families (n : Nat) : List Block → Families
  | [] => []
  | b :: rest => ⟨b.name, some .gauge, numbered (n + 2) b.samples⟩ :: families (n + 2 + b.samples.length) rest

variable {fs : Families} {b : Block} {bs : List Block} {n : Nat} {name : String}

theorem find_append_fresh {f : Family} (hf : f.name = name) (hn : name ∉ fs.map (·.name)) :
    Families.find (fs ++ [f]) name = some f := by
  rw [Families.find, List.find?_append, List.find?_eq_none.mpr]
  · simp [hf]
  · intro g hg he
    exact hn (List.mem_map.mpr ⟨g, hg, by simpa using he⟩)

theorem find_fresh (hn : name ∉ fs.map (·.name)) : fs.find name = none := by
  rw [Families.find, List.find?_eq_none]
  intro g hg he
  exact hn (List.mem_map.mpr ⟨g, hg, by simpa using he⟩)

theorem update_append_fresh {f : Family} (hf : f.name = name) (hn : name ∉ fs.map (·.name))
    (g : Family → Family) : Families.update name g (fs ++ [f]) = fs ++ [g f] := by
  induction fs with
  | nil => simp [Families.update, hf]
  | cons h fs ih =>
    obtain ⟨hh, hfs⟩ := not_or.mp (mt List.mem_cons.mpr hn)
    rw [List.cons_append, Families.update, if_neg (Ne.symm hh), ih hfs, List.cons_append]

theorem update_fresh (hn : name ∉ fs.map (·.name)) (g : Family → Family) :
    Families.update name g fs = fs ++ [g ⟨name, none, []⟩] := by
  induction fs with
  | nil => rfl
  | cons h fs ih =>
    obtain ⟨hh, hfs⟩ := not_or.mp (mt List.mem_cons.mpr hn)
    rw [Families.update, if_neg (Ne.symm hh), ih hfs, List.cons_append]

theorem add_sample {f : Family} {s : Sample} (hf : f.name = name) (hk : f.kind.isSome = true)
    (hn : name ∉ fs.map (·.name)) (hs : s.name = name) (n : Nat) :
    Families.add (fs ++ [f]) n (.sample s) = .ok (fs ++ [{ f with samples := f.samples ++ [(n, s)] }]) := by
  have hkind : Families.kind? (fs ++ [f]) name = f.kind := by
    rw [Families.kind?, find_append_fresh hf hn, Option.bind_some]
  rw [Families.add, Families.collect, hs, Families.owner, hkind, if_pos hk, update_append_fresh hf hn]

theorem read_line {fs' : Families} {text : List Char} {l : Line} (h : Line.read text = .ok l)
    (ha : fs.add n l = .ok fs') (rest : List (List Char)) :
    Families.read fs n (text :: rest) = Families.read fs' (n + 1) rest := by
  simp only [Families.read, h, bind, Except.bind, ha]

theorem read_samples {f : Family} (hf : f.name = name) (hk : f.kind.isSome = true) (hn : name ∉ fs.map (·.name))
    {samples : List (List Char × Sample)}
    (hs : ∀ t ∈ samples, Line.read t.1 = .ok (.sample t.2) ∧ t.2.name = name)
    (n : Nat) (rest : List (List Char)) :
    Families.read (fs ++ [f]) n (samples.map (·.1) ++ rest) =
      Families.read (fs ++ [{ f with samples := f.samples ++ Block.numbered n samples }])
        (n + samples.length) rest := by
  induction samples generalizing f n with
  | nil => simp [Block.numbered]
  | cons t samples ih =>
    obtain ⟨⟨ht, htn⟩, hs⟩ := List.forall_mem_cons.mp hs
    rw [List.map_cons, List.cons_append, read_line ht (add_sample hf hk hn htn n),
      ih (f := { f with samples := f.samples ++ [(n, t.2)] }) hf hk hs]
    simp [Block.numbered, Nat.add_assoc, Nat.add_comm 1]

theorem read_block (h : b.Fits) (hn : b.name ∉ fs.map (·.name)) (n : Nat) (rest : List (List Char)) :
    Families.read fs n (b.lines ++ rest) =
      Families.read (fs ++ [⟨b.name, some .gauge, Block.numbered (n + 2) b.samples⟩])
        (n + 2 + b.samples.length) rest := by
  have declared : fs.declare b.name .gauge = .ok (fs ++ [⟨b.name, some .gauge, []⟩]) := by
    rw [Families.declare, find_fresh hn]
    exact congrArg Except.ok (update_fresh hn _)
  have silent : fs.add n .silent = .ok fs := rfl
  rw [Block.lines, List.cons_append, List.cons_append, read_line h.help silent, read_line h.kind declared]
  exact read_samples (f := ⟨b.name, some .gauge, []⟩) rfl rfl hn h.samples (n + 2) rest

theorem read_blocks (h : ∀ b ∈ bs, b.Fits) (hd : (fs.map (·.name) ++ bs.map (·.name)).Nodup) (n : Nat) :
    Families.read fs n (bs.flatMap Block.lines) = .ok (fs ++ Block.families n bs) := by
  induction bs generalizing fs n with
  | nil => simp [Families.read, Block.families]
  | cons b bs ih =>
    obtain ⟨hb, hbs⟩ := List.forall_mem_cons.mp h
    have hn : b.name ∉ fs.map (·.name) := by
      intro hm
      exact (List.nodup_append.mp hd).2.2 _ hm _ List.mem_cons_self rfl
    rw [List.flatMap_cons, read_block hb hn, ih hbs (by simpa using hd), Block.families, List.append_assoc,
      List.singleton_append]

/-! Metrics -/

def gaugeMetric (c : Family.Context) (name : String) (s : Sample) : Metric :=
  ⟨name, Dict.ofList [("gauge", s.value)], Family.tagsOf c.tags "" s, c.timestamp, .gauge⟩

theorem scalarMetric_gauge {c : Family.Context} {s : Sample} (h : s.value.isNaN = false) :
    Family.scalarMetric c name .gauge s = some (gaugeMetric c name s) := by
  rw [Family.scalarMetric, h]
  rfl

theorem metricsOf_numbered {c : Family.Context} {f : Family} (hk : f.kind = some .gauge)
    {samples : List (List Char × Sample)} (h : ∀ t ∈ samples, t.2.value.isNaN = false) (n : Nat) :
    f.metricsOf c (Block.numbered n samples) = .ok (samples.map fun t => gaugeMetric c f.name t.2) := by
  induction samples generalizing n with
  | nil => rfl
  | cons t samples ih =>
    obtain ⟨ht, hs⟩ := List.forall_mem_cons.mp h
    have hm : f.metric c t.2 = .ok (some (gaugeMetric c f.name t.2)) := by
      rw [Family.metric, hk]
      exact congrArg Except.ok (scalarMetric_gauge ht)
    rw [Block.numbered, Family.metricsOf, hm]
    change (f.metricsOf c (Block.numbered (n + 1) samples)).map _ = _
    rw [ih hs]
    rfl

theorem flatten_blocks {c : Family.Context}
    (h : ∀ b ∈ bs, ∀ t ∈ b.samples, t.2.value.isNaN = false) (n : Nat) :
    flatten c (Block.families n bs) =
      .ok (bs.flatMap fun b => b.samples.map fun t => gaugeMetric c b.name t.2) := by
  induction bs generalizing n with
  | nil => rfl
  | cons b bs ih =>
    obtain ⟨hb, hbs⟩ := List.forall_mem_cons.mp h
    rw [Block.families, flatten, Family.metrics, metricsOf_numbered rfl hb, ih hbs]
    rfl

end ScrapeRelay.Exposition

import ScrapeRelay.Exposition.Family

/-!
The first lines of a body. Further lines add samples behind those that a family has, and families behind those
that there are; a family with samples keeps its type. So the first lines of an accepted body are accepted, with
a part of its metrics, and a fault shows as soon as its line has come.
-/

namespace ScrapeRelay.Text

def firstLines : Nat → List Char → List Char
  | 0, _ => []
  | _, [] => []
  | k + 1, c :: rest => c :: if c = '\n' then firstLines k rest else firstLines (k + 1) rest

variable {c : Char} {s : List Char}

theorem lines_cons (hc : c ≠ '\n') (hr : c = '\r' → s.head? ≠ some '\n') :
    lines (c :: s) = match lines s with
      | [] => [[c]]
      | l :: ls => (c :: l) :: ls := by
  have hn (rest : List Char) (h : c = '\r') (hs : s = '\n' :: rest) : False := hr h (by rw [hs]; rfl)
  exact lines.eq_4 c s hc hn

theorem firstLines_head (k : Nat) (s : List Char) : (firstLines (k + 1) s).head? = s.head? := by
  cases s <;> rfl

theorem firstLines_cons (hc : c ≠ '\n') (k : Nat) (s : List Char) :
    firstLines (k + 1) (c :: s) = c :: firstLines (k + 1) s := by
  rw [firstLines, if_neg hc]

theorem lines_firstLines (k : Nat) (s : List Char) : lines (firstLines k s) = (lines s).take k := by
  cases k with
  | zero => simp [firstLines, lines]
  | succ k =>
    fun_induction lines s generalizing k with
    | case1 => rfl
    | case2 rest ih =>
      rw [firstLines, if_pos rfl, lines, List.take_succ_cons]
      cases k with
      | zero => simp [firstLines, lines]
      | succ k => rw [ih]
    | case3 rest ih =>
      rw [firstLines_cons (by decide), firstLines, if_pos rfl, lines, List.take_succ_cons]
      cases k with
      | zero => simp [firstLines, lines]
      | succ k => rw [ih]
    | case4 c rest hn hr hl ih | case5 c rest hn hr l ls hl ih =>
      have hc : c ≠ '\n' := fun h => hn h
      have hh : c = '\r' → (firstLines (k + 1) rest).head? ≠ some '\n' := by
        rw [firstLines_head]
        rintro rfl h
        obtain ⟨more, rfl⟩ := List.head?_eq_some_iff.mp h
        exact hr more rfl rfl
      rw [firstLines_cons hc, lines_cons hc hh, ih, hl]
      simp

end ScrapeRelay.Text

namespace ScrapeRelay.Exposition

def firstLines (k : Nat) (body : String) : String := String.ofList (Text.firstLines k body.toList)

def isBlankLine (t : List Char) : Prop := Text.trim t = []

def isFreeComment (t : List Char) : Prop :=
  ∃ rest, Text.trim t = '#' :: rest ∧
    ∀ word ∈ (Text.words rest).head?, word ≠ ['T', 'Y', 'P', 'E'] ∧ word ≠ ['H', 'E', 'L', 'P']

theorem read_blank {t : List Char} (h : isBlankLine t) : Line.read t = .ok .silent := by
  rw [isBlankLine] at h
  rw [Line.read, h]

theorem read_freeComment {t : List Char} (h : isFreeComment t) : Line.read t = .ok .silent := by
  obtain ⟨rest, ht, hw⟩ := h
  rw [Line.read, ht]
  cases hs : Text.words rest with
  | nil => simp [hs, Line.comment]
  | cons word more =>
    rw [hs] at hw
    obtain ⟨htype, hhelp⟩ := hw word rfl
    simp only [hs, Line.comment]
    rw [if_neg htype, if_neg hhelp]

/-! Families that grow -/

structure Family.Grown (P : Nat × Sample → Prop) (f g : Family) : Prop where
  name : g.name = f.name
  samples : ∃ more, g.samples = f.samples ++ more ∧ ∀ o ∈ more, P o
  kind : f.samples ≠ [] → g.kind = f.kind

inductive Families.Grown (P : Nat × Sample → Prop) : Families → Families → Prop
  | new {gs : Families} (h : ∀ g ∈ gs, ∀ o ∈ g.samples, P o) : Grown P [] gs
  | kept {f g : Family} {fs gs : Families} (h : f.Grown P g) (hr : Grown P fs gs) : Grown P (f :: fs) (g :: gs)

variable {P Q : Nat × Sample → Prop} {f g h : Family} {fs gs hs : Families} {c : Family.Context} {e : Error}

namespace Family.Grown

theorem refl (P : Nat × Sample → Prop) (f : Family) : f.Grown P f :=
  ⟨rfl, ⟨[], (List.append_nil _).symm, by simp⟩, fun _ => rfl⟩

theorem trans (hf : f.Grown P g) (hg : g.Grown P h) : f.Grown P h := by
  obtain ⟨more, hm, hp⟩ := hf.samples
  obtain ⟨most, hn, hq⟩ := hg.samples
  refine ⟨hg.name.trans hf.name, ⟨more ++ most, ?_, List.forall_mem_append.mpr ⟨hp, hq⟩⟩,
    fun hne => ?_⟩
  · rw [hn, hm, List.append_assoc]
  · have hne' : g.samples ≠ [] := by simp [hm, hne]
    exact (hg.kind hne').trans (hf.kind hne)

theorem mono (hf : f.Grown P g) (hpq : ∀ o, P o → Q o) : f.Grown Q g := by
  obtain ⟨more, hm, hp⟩ := hf.samples
  exact ⟨hf.name, ⟨more, hm, fun o ho => hpq o (hp o ho)⟩, hf.kind⟩

theorem all (hf : f.Grown P g) (h : ∀ o ∈ f.samples, P o) : ∀ o ∈ g.samples, P o := by
  obtain ⟨more, hm, hp⟩ := hf.samples
  rw [hm]
  exact List.forall_mem_append.mpr ⟨h, hp⟩

end Family.Grown

namespace Families.Grown

theorem refl (P : Nat × Sample → Prop) (fs : Families) : Grown P fs fs := by
  induction fs with
  | nil => exact .new (by simp)
  | cons f fs ih => exact .kept (.refl P f) ih

theorem all (hf : Grown P fs gs) (h : ∀ f ∈ fs, ∀ o ∈ f.samples, P o) :
    ∀ g ∈ gs, ∀ o ∈ g.samples, P o := by
  induction hf with
  | new hn => exact hn
  | kept hg _ ih =>
    obtain ⟨hf, hfs⟩ := List.forall_mem_cons.mp h
    exact List.forall_mem_cons.mpr ⟨hg.all hf, ih hfs⟩

theorem trans (hf : Grown P fs gs) (hg : Grown P gs hs) : Grown P fs hs := by
  induction hf generalizing hs with
  | new hn => exact .new (hg.all hn)
  | kept h _ ih =>
    cases hg with
    | kept h' hr => exact .kept (h.trans h') (ih hr)

theorem mono (hf : Grown P fs gs) (hpq : ∀ o, P o → Q o) : Grown Q fs gs := by
  induction hf with
  | new hn => exact .new fun g hg o ho => hpq o (hn g hg o ho)
  | kept h _ ih => exact .kept (h.mono hpq) ih

theorem update {name : String} {u : Family → Family} (hf : ∀ f, fs.find name = some f → f.Grown P (u f))
    (hn : ∀ o ∈ (u ⟨name, none, []⟩).samples, P o) : Grown P fs (fs.update name u) := by
  induction fs with
  | nil => exact .new (by simpa [Families.update] using hn)
  | cons g rest ih =>
    rw [Families.update]
    by_cases h : g.name = name
    · rw [if_pos h]
      exact .kept (hf g (by simp [Families.find, h])) (refl P rest)
    · rw [if_neg h]
      refine .kept (.refl P g) (ih fun f hfind => hf f ?_)
      simpa [Families.find, h] using hfind

end Families.Grown

theorem add_grown {n : Nat} {l : Line} (h : fs.add n l = .ok gs) :
    fs.Grown (fun o => o.1 = n ∧ l = .sample o.2) gs := by
  cases l with
  | silent =>
    obtain rfl := Except.ok.inj h
    exact .refl _ fs
  | kind name k =>
    simp only [Families.add, Families.declare] at h
    split at h
    · simp at h
    · simp at h
    · rename_i hsome hlate
      obtain rfl := Except.ok.inj h
      refine .update (fun f hf => ?_) (by simp)
      have empty : f.samples = [] := by
        obtain ⟨fname, kind, samples⟩ := f
        cases kind with
        | some k' => exact absurd hf (hsome fname k' samples)
        | none =>
          cases samples with
          | nil => rfl
          | cons o more => exact absurd hf (hlate fname o more)
      exact ⟨rfl, ⟨[], (List.append_nil _).symm, by simp⟩, fun hne => absurd empty hne⟩
  | sample s =>
    obtain rfl := Except.ok.inj h
    exact .update (fun f _ => ⟨rfl, ⟨[(n, s)], rfl, by simp⟩, fun _ => rfl⟩) (by simp)

def standsIn (n : Nat) (texts : List (List Char)) (o : Nat × Sample) : Prop :=
  ∃ i t, texts[i]? = some t ∧ o.1 = n + i ∧ Line.read t = .ok (.sample o.2)

theorem read_grown {n : Nat} {texts : List (List Char)} (h : fs.read n texts = .ok gs) :
    fs.Grown (standsIn n texts) gs := by
  induction texts generalizing fs n with
  | nil =>
    obtain rfl := Except.ok.inj h
    exact .refl _ fs
  | cons t rest ih =>
    rw [Families.read] at h
    split at h
    · simp at h
    · rename_i hs hl
      obtain ⟨l, hl, ha⟩ := Sample.bind_eq_ok hl
      refine ((add_grown ha).mono ?_).trans ((ih h).mono ?_)
      · rintro o ⟨rfl, rfl⟩
        exact ⟨0, t, rfl, rfl, hl⟩
      · rintro o ⟨i, u, hu, ho, hr⟩
        exact ⟨i + 1, u, hu, by omega, hr⟩

/-! Reading line by line -/

theorem read_append (fs : Families) (n : Nat) (texts more : List (List Char)) :
    fs.read n (texts ++ more) = fs.read n texts >>= fun gs => gs.read (n + texts.length) more := by
  induction texts generalizing fs n with
  | nil => rfl
  | cons t rest ih =>
    rw [List.cons_append, Families.read, Families.read]
    split
    · rfl
    · rw [ih, List.length_cons, Nat.add_right_comm, Nat.add_assoc]

theorem read_error {n : Nat} {texts : List (List Char)} (h : fs.read n texts = .error e) :
    ∃ i t, texts[i]? = some t ∧ e.line = n + i ∧ Line.read t ≠ .ok .silent := by
  induction texts generalizing fs n with
  | nil => simp [Families.read] at h
  | cons t rest ih =>
    rw [Families.read] at h
    split at h
    · rename_i fault hl
      obtain rfl := Except.error.inj h
      refine ⟨0, t, rfl, rfl, fun hr => ?_⟩
      simp [hr, bind, Except.bind, Families.add] at hl
    · obtain ⟨i, u, hu, he, hr⟩ := ih h
      exact ⟨i + 1, u, hu, by omega, hr⟩

/-! Metrics of families that grow -/

theorem metricsOf_congr (c : Family.Context) (hn : g.name = f.name) (hk : g.kind = f.kind)
    (samples : List (Nat × Sample)) : g.metricsOf c samples = f.metricsOf c samples := by
  induction samples with
  | nil => rfl
  | cons o rest ih => simp only [Family.metricsOf, Family.metric, hn, hk, ih]

theorem metricsOf_append (c : Family.Context) (f : Family) (samples more : List (Nat × Sample)) :
    f.metricsOf c (samples ++ more) =
      f.metricsOf c samples >>= fun ms => (f.metricsOf c more).map (ms ++ ·) := by
  induction samples with
  | nil =>
    change f.metricsOf c more = (f.metricsOf c more).map fun ms => [] ++ ms
    cases f.metricsOf c more <;> rfl
  | cons o rest ih =>
    rw [List.cons_append, Family.metricsOf, Family.metricsOf, ih]
    cases f.metric c o.2 with
    | error fault => rfl
    | ok m =>
      cases f.metricsOf c rest with
      | error e => rfl
      | ok ms => cases f.metricsOf c more <;> simp [bind, Except.bind, Except.map]

theorem metricsOf_error {samples : List (Nat × Sample)} (h : f.metricsOf c samples = .error e) :
    ∃ o ∈ samples, o.1 = e.line := by
  induction samples with
  | nil => simp [Family.metricsOf] at h
  | cons o rest ih =>
    rw [Family.metricsOf] at h
    split at h
    · obtain rfl := Except.error.inj h
      exact ⟨o, List.mem_cons_self, rfl⟩
    · cases hr : f.metricsOf c rest with
      | ok ms => simp [hr, Except.map] at h
      | error e' =>
        obtain rfl : e' = e := by simpa [hr, Except.map] using h
        obtain ⟨p, hp, he⟩ := ih hr
        exact ⟨p, List.mem_cons_of_mem _ hp, he⟩

theorem flatten_error (h : flatten c fs = .error e) : ∃ f ∈ fs, ∃ o ∈ f.samples, o.1 = e.line := by
  induction fs with
  | nil => simp [flatten] at h
  | cons f rest ih =>
    rw [flatten] at h
    cases hm : f.metrics c with
    | error e' =>
      obtain rfl : e' = e := by simpa [hm, bind, Except.bind] using h
      exact ⟨f, List.mem_cons_self, metricsOf_error hm⟩
    | ok ms =>
      cases hr : flatten c rest with
      | ok more => simp [hm, hr, bind, Except.bind, pure, Except.pure] at h
      | error e' =>
        obtain rfl : e' = e := by simpa [hm, hr, bind, Except.bind] using h
        obtain ⟨g, hg, hl⟩ := ih hr
        exact ⟨g, List.mem_cons_of_mem _ hg, hl⟩

theorem Family.Grown.metrics (h : f.Grown P g) (c : Family.Context) :
    ∃ more, (∀ o ∈ more, P o) ∧
      g.metrics c = f.metrics c >>= fun ms => (g.metricsOf c more).map (ms ++ ·) := by
  obtain ⟨more, hm, hp⟩ := h.samples
  refine ⟨more, hp, ?_⟩
  have same : g.metricsOf c f.samples = f.metrics c := by
    by_cases he : f.samples = []
    · rw [Family.metrics, he]
      rfl
    · exact metricsOf_congr c h.name (h.kind he) f.samples
  rw [Family.metrics, hm, metricsOf_append, same]

theorem Families.Grown.flatten_ok {ms : List Metric} (h : Families.Grown P fs gs) (hg : flatten c gs = .ok ms) :
    ∃ part, flatten c fs = .ok part ∧ part.Sublist ms := by
  induction h generalizing ms with
  | new => exact ⟨[], rfl, List.nil_sublist _⟩
  | @kept f g fs gs h _ ih =>
    rw [flatten] at hg
    obtain ⟨own, ho, hg⟩ := Sample.bind_eq_ok hg
    obtain ⟨others, hr, hg⟩ := Sample.bind_eq_ok hg
    obtain rfl := Except.ok.inj hg
    obtain ⟨more, -, hm⟩ := h.metrics c
    rw [hm] at ho
    obtain ⟨first, hf, ho⟩ := Sample.bind_eq_ok ho
    obtain ⟨part, hp, hs⟩ := ih hr
    refine ⟨first ++ part, by simp [flatten, hf, hp, bind, Except.bind, pure, Except.pure],
      List.Sublist.append ?_ hs⟩
    cases hl : g.metricsOf c more with
    | error e => simp [hl, Except.map] at ho
    | ok last =>
      obtain rfl : first ++ last = own := by simpa [hl, Except.map] using ho
      exact List.sublist_append_left first last

theorem Families.Grown.flatten_error (h : Families.Grown P fs gs) (hp : ∀ o, P o → o.1 ≠ e.line)
    (hg : flatten c gs = .error e) : flatten c fs = .error e := by
  induction h with
  | new hn =>
    obtain ⟨g, hmem, o, ho, he⟩ := Exposition.flatten_error hg
    exact absurd he (hp o (hn g hmem o ho))
  | @kept f g fs gs h _ ih =>
    obtain ⟨more, hmore, hm⟩ := h.metrics c
    rw [flatten, hm] at hg
    rw [flatten]
    cases hf : f.metrics c with
    | error e' => simpa [hf, bind, Except.bind] using hg
    | ok first =>
      cases hl : g.metricsOf c more with
      | error e' =>
        obtain rfl : e' = e := by simpa [hf, hl, bind, Except.bind, Except.map] using hg
        obtain ⟨o, ho, he⟩ := metricsOf_error hl
        exact absurd he (hp o (hmore o ho))
      | ok last =>
        cases hr : flatten c gs with
        | error e' =>
          obtain rfl : e' = e := by simpa [hf, hl, hr, bind, Except.bind, Except.map] using hg
          rw [ih hr]
          rfl
        | ok others => simp [hf, hl, hr, bind, Except.bind, Except.map, pure, Except.pure] at hg

/-! Bodies -/

theorem families_firstLines (k : Nat) (body : String) :
    families (firstLines k body) = Families.read [] 1 ((Text.lines body.toList).take k) := by
  rw [families, firstLines, String.toList_ofList, Text.lines_firstLines]

theorem families_split (k : Nat) (body : String) : families body =
    families (firstLines k body) >>= fun fs =>
      fs.read (1 + ((Text.lines body.toList).take k).length) ((Text.lines body.toList).drop k) := by
  rw [families_firstLines, ← read_append, List.take_append_drop]
  rfl

theorem fault_line {timestamp : Timestamp} {tags : Dict String String} {body : String}
    (h : read timestamp tags body = .error e) :
    ∃ i t, (Text.lines body.toList)[i]? = some t ∧ e.line = 1 + i ∧ Line.read t ≠ .ok .silent := by
  rw [read] at h
  cases hf : families body with
  | error e' =>
    obtain rfl : e' = e := by simpa [hf, bind, Except.bind] using h
    exact read_error hf
  | ok gs =>
    have hg : flatten ⟨timestamp, tags⟩ gs = .error e := by simpa [hf, bind, Except.bind] using h
    obtain ⟨g, hmem, o, ho, he⟩ := flatten_error hg
    have hgs : Families.Grown (standsIn 1 (Text.lines body.toList)) [] gs := read_grown hf
    obtain ⟨i, t, ht, hi, hr⟩ := hgs.all (by simp) g hmem o ho
    exact ⟨i, t, ht, he.symm.trans hi, by simp [hr]⟩

theorem firstLines_error {timestamp : Timestamp} {tags : Dict String String} {body : String}
    (h : read timestamp tags body = .error e) : read timestamp tags (firstLines e.line body) = .error e := by
  obtain ⟨i, t, ht, hi, -⟩ := fault_line h
  have hlen : ((Text.lines body.toList).take e.line).length = e.line := by
    have := (List.getElem?_eq_some_iff.mp ht).1
    rw [List.length_take]
    omega
  rw [read, families_split e.line body, hlen] at h
  rw [read]
  cases hf : families (firstLines e.line body) with
  | error e' => simpa [hf, bind, Except.bind] using h
  | ok fs =>
    cases hr : fs.read (1 + e.line) ((Text.lines body.toList).drop e.line) with
    | error e' =>
      obtain rfl : e' = e := by simpa [hf, hr, bind, Except.bind] using h
      obtain ⟨j, u, -, he, -⟩ := read_error hr
      omega
    | ok gs =>
      have hg : flatten ⟨timestamp, tags⟩ gs = .error e := by simpa [hf, hr, bind, Except.bind] using h
      refine (read_grown hr).flatten_error ?_ hg
      rintro o ⟨j, u, -, ho, -⟩ he
      omega

theorem firstLines_ok {timestamp : Timestamp} {tags : Dict String String} {body : String}
    {ms : List Metric} (k : Nat) (h : read timestamp tags body = .ok ms) :
    ∃ part, read timestamp tags (firstLines k body) = .ok part ∧ part.Sublist ms := by
  rw [read, families_split k body] at h
  obtain ⟨gs, hg, h⟩ := Sample.bind_eq_ok h
  obtain ⟨fs, hf, hr⟩ := Sample.bind_eq_ok hg
  obtain ⟨part, hp, hs⟩ := (read_grown hr).flatten_ok h
  exact ⟨part, by rw [read, hf]; exact hp, hs⟩

/-- The first lines of an accepted body are accepted, with a part of its metrics in their order. A refused body is
refused at one of its lines, which says something, and the lines up to that one are refused with the same error. -/
theorem read_localised (timestamp : Timestamp) (tags : Dict String String) (body : String) :
    match read timestamp tags body with
    | .ok ms => ∀ k, ∃ part, read timestamp tags (firstLines k body) = .ok part ∧ part.Sublist ms
    | .error e => 1 ≤ e.line ∧ e.line ≤ (Text.lines body.toList).length ∧
        (∃ t, (Text.lines body.toList)[e.line - 1]? = some t ∧ ¬ isBlankLine t ∧ ¬ isFreeComment t) ∧
        read timestamp tags (firstLines e.line body) = .error e := by
  cases h : read timestamp tags body with
  | ok ms => exact fun k => firstLines_ok k h
  | error e =>
    obtain ⟨i, t, ht, hi, hs⟩ := fault_line h
    have hlen := (List.getElem?_eq_some_iff.mp ht).1
    have hpos : e.line - 1 = i := by omega
    refine ⟨by omega, by omega, ⟨t, hpos ▸ ht, fun hb => hs (read_blank hb),
      fun hc => hs (read_freeComment hc)⟩, firstLines_error h⟩

end ScrapeRelay.Exposition

import Mathlib.Data.List.Forall2
import ScrapeRelay.Proofs.Exposition.Coverage
import ScrapeRelay.Proofs.Exposition.Grammar

/-!
Which bodies are accepted: those whose lines are all written as the grammar has them and are each allowed by the
lines before them. A family gets its type once and before its first sample, and a sample that stands for a
quantile or a bucket says for which.
-/

namespace ScrapeRelay.Exposition

abbrev typeWord : List Char := ['T', 'Y', 'P', 'E']
abbrev helpWord : List Char := ['H', 'E', 'L', 'P']

inductive WrittenLine : List Char → Line → Prop
  | blank : WrittenLine [] .silent
  | sample {w : List Char} {s : Sample} (h : WrittenSample w s) : WrittenLine w (.sample s)
  | type {rest name : List Char} {k : Family.Kind} {more : List (List Char)} (hn : isMetricName name = true)
      (hw : Text.words rest = typeWord :: name :: k.name.toList :: more) :
      WrittenLine ('#' :: rest) (.kind (String.ofList name) k)
  | help {rest name : List Char} {more : List (List Char)} (hn : isMetricName name = true)
      (hw : Text.words rest = helpWord :: name :: more) : WrittenLine ('#' :: rest) .silent
  | remark {rest : List Char} (hw : ∀ word ∈ (Text.words rest).head?, word ≠ typeWord ∧ word ≠ helpWord) :
      WrittenLine ('#' :: rest) .silent

def trimmed (body : String) : List (List Char) := (Text.lines body.toList).map Text.trim

def Sample.Bears (s : Sample) (label : String) : Prop :=
  ∃ text x, s.label? label = some text ∧ number? text.toList = some x

/-- A sample that stands for a quantile or a bucket of its family says for which. -/
structure TellsBound (family : String) (kind : Option Family.Kind) (s : Sample) : Prop where
  quantile : kind = some .summary → s.name = family → s.Bears "quantile"
  bucket : kind = some .histogram → s.name = family ++ "_bucket" → s.Bears "le"

/-- A type comes once for each name, and before the samples of its family. -/
structure Declares (before : List Line) (l : Line) : Prop where
  once : ∀ name k, l = .kind name k → declared before name = none
  early : ∀ name k, l = .kind name k → ∀ o ∈ owned before, o.1 ≠ name

structure Allowed (before : List Line) (l : Line) : Prop extends Declares before l where
  bound : ∀ s, l = .sample s →
    TellsBound (ownerAfter before s.name) (declared before (ownerAfter before s.name)) s

def Along (P : List Line → Line → Prop) (before ls : List Line) : Prop :=
  ∀ earlier l later, ls = earlier ++ l :: later → P (before ++ earlier) l

variable {P : List Line → Line → Prop} {before ls : List Line} {l : Line} {text : List Char}
  {texts : List (List Char)}
  {words : List (List Char)} {name family : String} {kind : Option Family.Kind} {k : Family.Kind} {s : Sample}
  {c : Family.Context}

theorem along_nil : Along P before [] := by
  intro earlier l later h
  simp at h

theorem along_cons : Along P before (l :: ls) ↔ P before l ∧ Along P (before ++ [l]) ls := by
  constructor
  · intro h
    refine ⟨by simpa using h [] l ls rfl, fun earlier l' later hs => ?_⟩
    simpa using h (l :: earlier) l' later (by rw [hs, List.cons_append])
  · rintro ⟨hl, hls⟩ earlier l' later hs
    cases earlier with
    | nil =>
      obtain ⟨rfl, -⟩ := List.cons.inj hs
      simpa using hl
    | cons a earlier =>
      obtain ⟨rfl, htail⟩ := List.cons.inj hs
      simpa using hls earlier l' later htail

theorem along_append {more : List Line} :
    Along P before (ls ++ more) ↔ Along P before ls ∧ Along P (before ++ ls) more := by
  induction ls generalizing before with
  | nil => simp [along_nil]
  | cons l ls ih =>
    rw [List.cons_append, along_cons, along_cons, ih, and_assoc, List.append_assoc, List.singleton_append]

/-! Lines -/

theorem ofName?_eq_some : Family.Kind.ofName? text = some k ↔ text = k.name.toList := by
  constructor
  · intro h
    have := List.find?_some h
    exact (of_decide_eq_true this).symm
  · rintro rfl
    cases k <;> decide

theorem subject_ok {directive : String} {named : List Char × List (List Char)} :
    Line.subject directive words = .ok named ↔ words = named.1 :: named.2 ∧ isMetricName named.1 = true := by
  obtain ⟨name, more⟩ := named
  cases words with
  | nil => simp [Line.subject]
  | cons w rest =>
    rw [Line.subject]
    split
    · rename_i hw
      simp only [Except.ok.injEq, Prod.mk.injEq, List.cons.injEq]
      exact ⟨fun h => ⟨h, h.1 ▸ hw⟩, And.left⟩
    · rename_i hw
      simp only [reduceCtorEq, List.cons.injEq, false_iff, not_and]
      rintro ⟨rfl, -⟩
      exact hw

theorem comment_type :
    Line.comment (typeWord :: words) = .ok l ↔ ∃ (name : List Char) (k : Family.Kind) (more : _),
    words = name :: k.name.toList :: more ∧ isMetricName name = true ∧ l = .kind (String.ofList name) k := by
  rw [Line.comment, if_pos rfl]
  constructor
  · intro h
    obtain ⟨⟨name, more⟩, hn, hkind⟩ := Sample.bind_eq_ok h
    obtain ⟨rfl, hname⟩ := subject_ok.mp hn
    cases more with
    | nil => simp at hkind
    | cons kindName more =>
      dsimp only at hkind
      split at hkind
      · rename_i k hk
        obtain rfl := Except.ok.inj hkind
        exact ⟨name, k, more, by rw [ofName?_eq_some.mp hk], hname, rfl⟩
      · simp at hkind
  · rintro ⟨name, k, more, rfl, hname, rfl⟩
    have hs : Line.subject "TYPE" (name :: k.name.toList :: more) = .ok (name, k.name.toList :: more) :=
      subject_ok.mpr ⟨rfl, hname⟩
    simp only [hs, bind, Except.bind, ofName?_eq_some.mpr rfl]

theorem comment_help : Line.comment (helpWord :: words) = .ok l ↔
    ∃ name more, words = name :: more ∧ isMetricName name = true ∧ l = .silent := by
  rw [Line.comment, if_neg (by decide), if_pos rfl]
  constructor
  · intro h
    obtain ⟨⟨name, more⟩, hn, hsilent⟩ := Sample.bind_eq_ok h
    obtain ⟨rfl, hname⟩ := subject_ok.mp hn
    exact ⟨name, more, rfl, hname, (Except.ok.inj hsilent).symm⟩
  · rintro ⟨name, more, rfl, hname, rfl⟩
    have hs : Line.subject "HELP" (name :: more) = .ok (name, more) := subject_ok.mpr ⟨rfl, hname⟩
    simp only [hs, bind, Except.bind]

theorem comment_free (h : ∀ word ∈ words.head?, word ≠ typeWord ∧ word ≠ helpWord) :
    Line.comment words = .ok .silent := by
  cases words with
  | nil => rfl
  | cons word words =>
    obtain ⟨htype, hhelp⟩ := h word rfl
    rw [Line.comment, if_neg htype, if_neg hhelp]

theorem trimmed_sample : Sample.read (Text.trim text) = .ok s ↔ WrittenSample (Text.trim text) s := by
  constructor
  · intro h
    obtain ⟨w, g, hw, hg, he⟩ := written_of_read h
    obtain rfl | ⟨g, c, rfl⟩ := List.eq_nil_or_concat g
    · rwa [he, List.append_nil]
    · have hc : Text.isBlank c = true := by
        rcases isGap_cases (hg c (by simp)) with rfl | rfl <;> decide
      rw [List.concat_eq_append, ← List.append_assoc] at he
      exact absurd (he ▸ Text.trim_trim text) (Text.trim_concat_blank _ hc)
  · intro h
    simpa using read_written h isGap_nil

theorem sample_head (h : WrittenSample text s) : ∃ c rest, text = c :: rest ∧ c ≠ '#' := by
  obtain ⟨c, rest, rfl, hc⟩ := h.head
  refine ⟨c, rest, rfl, ?_⟩
  rintro rfl
  exact absurd hc (by decide)

theorem comment_iff {rest : List Char} :
    Line.comment (Text.words rest) = .ok l ↔ WrittenLine ('#' :: rest) l := by
  constructor
  · intro h
    by_cases htype : (Text.words rest).head? = some typeWord
    · obtain ⟨words, hw⟩ := List.head?_eq_some_iff.mp htype
      rw [hw] at h
      obtain ⟨name, k, more, rfl, hname, rfl⟩ := comment_type.mp h
      exact .type hname hw
    by_cases hhelp : (Text.words rest).head? = some helpWord
    · obtain ⟨words, hw⟩ := List.head?_eq_some_iff.mp hhelp
      rw [hw] at h
      obtain ⟨name, more, rfl, hname, rfl⟩ := comment_help.mp h
      exact .help hname hw
    have free : ∀ word ∈ (Text.words rest).head?, word ≠ typeWord ∧ word ≠ helpWord := by
      intro word hword
      exact ⟨fun h => htype (h ▸ hword), fun h => hhelp (h ▸ hword)⟩
    obtain rfl := Except.ok.inj (h.symm.trans (comment_free free))
    exact .remark free
  · intro h
    cases h with
    | sample hs =>
      obtain ⟨c, rest, he, hc⟩ := sample_head hs
      exact absurd (List.cons.inj he).1.symm hc
    | type hn hw => exact hw ▸ comment_type.mpr ⟨_, _, _, rfl, hn, rfl⟩
    | help hn hw => exact hw ▸ comment_help.mpr ⟨_, _, rfl, hn, rfl⟩
    | remark hw => exact comment_free hw

theorem line_read_iff : Line.read text = .ok l ↔ WrittenLine (Text.trim text) l := by
  rw [Line.read]
  split
  · rename_i ht
    rw [ht]
    constructor
    · intro h
      obtain rfl := Except.ok.inj h
      exact .blank
    · rintro (- | h)
      · rfl
      · obtain ⟨c, rest, he, -⟩ := sample_head h
        cases he
  · rename_i rest ht
    rw [ht]
    exact comment_iff
  · rename_i hblank hcomment
    constructor
    · intro h
      cases hs : Sample.read (Text.trim text) with
      | error f => simp [hs, Except.map] at h
      | ok s =>
        rw [hs] at h
        obtain rfl := Except.ok.inj h
        exact .sample (trimmed_sample.mp hs)
    · intro h
      generalize ht : Text.trim text = t at h hblank hcomment
      cases h with
      | blank => exact absurd rfl hblank
      | sample h =>
        rw [← ht, trimmed_sample.mpr (ht ▸ h)]
        rfl
      | type | help | remark => exact absurd rfl (hcomment _)

theorem mapM_ok_iff :
    texts.mapM Line.read = .ok ls ↔ List.Forall₂ (fun t l => Line.read t = .ok l) texts ls := by
  induction texts generalizing ls with
  | nil => simp [pure, Except.pure, eq_comm]
  | cons t texts ih =>
    rw [List.mapM_cons]
    constructor
    · intro h
      obtain ⟨l, hl, h⟩ := Sample.bind_eq_ok h
      obtain ⟨more, hm, h⟩ := Sample.bind_eq_ok h
      obtain rfl := Except.ok.inj h
      exact .cons hl (ih.mp hm)
    · rintro (- | ⟨hl, hm⟩)
      rw [hl, ih.mpr hm]
      rfl

theorem linesOf_iff {body : String} : linesOf body = .ok ls ↔ List.Forall₂ WrittenLine (trimmed body) ls := by
  rw [linesOf, mapM_ok_iff, trimmed, List.forall₂_map_left_iff]
  simp only [line_read_iff]

/-! Types -/

theorem samplesOf_eq_nil : samplesOf ls name = [] ↔ ∀ o ∈ owned ls, o.1 ≠ name := by
  simp only [samplesOf, List.filterMap_eq_nil_iff, ite_eq_right_iff, reduceCtorEq]
  rfl

theorem declare_table_iff : (∃ fs, (table ls).declare name k = .ok fs) ↔
    declared ls name = none ∧ ∀ o ∈ owned ls, o.1 ≠ name := by
  rw [← samplesOf_eq_nil, Families.declare, find_table]
  by_cases hm : name ∈ mentions ls
  · rw [if_pos hm, familyOf]
    cases declared ls name with
    | some k => simp
    | none => cases samplesOf ls name <;> simp
  · have hf := familyOf_unmentioned hm
    simp only [familyOf, Family.mk.injEq, true_and] at hf
    simp [hm, hf]

theorem add_table_iff : (∃ fs, (table ls).add (ls.length + 1) l = .ok fs) ↔ Declares ls l := by
  cases l with
  | silent => exact ⟨fun _ => ⟨by simp, by simp⟩, fun _ => ⟨_, rfl⟩⟩
  | sample s => exact ⟨fun _ => ⟨by simp, by simp⟩, fun _ => ⟨_, rfl⟩⟩
  | kind name k =>
    rw [Families.add, declare_table_iff]
    constructor
    · rintro ⟨honce, hearly⟩
      constructor
      · rintro _ _ ⟨⟩
        exact honce
      · rintro _ _ ⟨⟩
        exact hearly
    · intro h
      exact ⟨h.once name k rfl, h.early name k rfl⟩

theorem read_table_iff (before : List Line) (texts : List (List Char)) :
    (∃ fs, (table before).read (before.length + 1) texts = .ok fs) ↔
      ∃ ls, texts.mapM Line.read = .ok ls ∧ Along Declares before ls := by
  -- the table is the one of the lines read so far, so each further line is one step of `add_table_iff`
  induction texts generalizing before with
  | nil => exact ⟨fun _ => ⟨[], rfl, along_nil⟩, fun _ => ⟨_, rfl⟩⟩
  | cons t texts ih =>
    have hlen (l : Line) : (before ++ [l]).length + 1 = before.length + 1 + 1 := by simp
    constructor
    · rintro ⟨fs, h⟩
      rw [Families.read] at h
      cases hl : Line.read t with
      | error f => simp [hl, bind, Except.bind] at h
      | ok l =>
        cases ha : (table before).add (before.length + 1) l with
        | error f => simp [hl, ha, bind, Except.bind] at h
        | ok next =>
          simp only [hl, ha, bind, Except.bind] at h
          obtain ⟨ls, hls, hd⟩ := (ih _).mp ⟨fs, by rwa [hlen, ← table_add ha]⟩
          refine ⟨l :: ls, by simp [List.mapM_cons, hl, hls, bind, Except.bind, pure, Except.pure], ?_⟩
          exact along_cons.mpr ⟨add_table_iff.mp ⟨next, ha⟩, hd⟩
    · rintro ⟨ls, hm, hd⟩
      rw [List.mapM_cons] at hm
      obtain ⟨l, hl, hm⟩ := Sample.bind_eq_ok hm
      obtain ⟨more, hmore, hm⟩ := Sample.bind_eq_ok hm
      obtain rfl := Except.ok.inj hm
      obtain ⟨hd, hrest⟩ := along_cons.mp hd
      obtain ⟨next, ha⟩ := add_table_iff.mpr hd
      obtain ⟨fs, hfs⟩ := (ih _).mpr ⟨more, hmore, hrest⟩
      refine ⟨fs, ?_⟩
      rw [Families.read, hl]
      simp only [bind, Except.bind, ha]
      rw [table_add ha, ← hlen l]
      exact hfs

/-! Bounds -/

theorem bound_iff {b : Family.Bounded} : (∃ x, Family.bound b name s = .ok x) ↔ s.Bears b.label := by
  rw [Family.bound, Sample.Bears]
  cases s.label? b.label with
  | none => simp
  | some text => cases hx : number? text.toList <;> simp [hx]

theorem boundedMetric_iff {b : Family.Bounded} :
    (∃ m, Family.boundedMetric c name b s = .ok m) ↔ (s.name = b.series → s.Bears b.label) := by
  have bears : (∃ x, Family.bound b name s = .ok x) ↔ s.Bears b.label := bound_iff
  rw [Family.boundedMetric, ← bears]
  split
  · simp_all
  · rename_i hs
    cases Family.bound b name s <;> simp_all [Except.map]

theorem metric_iff {samples : List (Nat × Sample)} :
    (∃ m, Family.metric c ⟨family, kind, samples⟩ s = .ok m) ↔ TellsBound family kind s := by
  rcases kind with - | (_ | _ | _ | _ | _)
  case some.summary =>
    exact boundedMetric_iff.trans ⟨fun h => ⟨fun _ => h, by simp⟩, fun h => h.quantile rfl⟩
  case some.histogram =>
    exact boundedMetric_iff.trans ⟨fun h => ⟨by simp, fun _ => h⟩, fun h => h.bucket rfl⟩
  all_goals exact ⟨fun _ => ⟨by simp, by simp⟩, fun _ => ⟨_, rfl⟩⟩

theorem metricsOf_of_each {f : Family} {samples : List (Nat × Sample)}
    (h : ∀ o ∈ samples, ∃ m, f.metric c o.2 = .ok m) : ∃ ms, f.metricsOf c samples = .ok ms := by
  induction samples with
  | nil => exact ⟨[], rfl⟩
  | cons o rest ih =>
    obtain ⟨⟨m, hm⟩, hrest⟩ := List.forall_mem_cons.mp h
    obtain ⟨ms, hms⟩ := ih hrest
    exact ⟨m.toList ++ ms, by rw [Family.metricsOf, hm, hms]; rfl⟩

theorem flatten_of_each {fs : Families} (h : ∀ f ∈ fs, ∀ o ∈ f.samples, ∃ m, f.metric c o.2 = .ok m) :
    ∃ ms, flatten c fs = .ok ms := by
  induction fs with
  | nil => exact ⟨[], rfl⟩
  | cons f rest ih =>
    obtain ⟨hf, hrest⟩ := List.forall_mem_cons.mp h
    obtain ⟨own, hown⟩ := metricsOf_of_each hf
    obtain ⟨more, hmore⟩ := ih hrest
    exact ⟨own ++ more, by rw [flatten, Family.metrics, hown, hmore]; rfl⟩

theorem flatten_table_iff : (∃ ms, flatten c (table ls) = .ok ms) ↔
    ∀ o ∈ owned ls, TellsBound o.1 (declared ls o.1) o.2.2 := by
  constructor
  · rintro ⟨ms, h⟩ o ho
    exact metric_iff.mp (owned_metric h ho)
  · intro h
    apply flatten_of_each
    intro f hf o ho
    obtain ⟨name, -, rfl⟩ := List.mem_map.mp hf
    obtain ⟨p, hp, hpo⟩ := List.mem_filterMap.mp ho
    split at hpo
    · rename_i hname
      obtain rfl := Option.some.inj hpo
      exact metric_iff.mpr (hname ▸ h p hp)
    · simp at hpo

/-! Acceptance -/

theorem scan_append {α : Type} (f : List Line → Line → Option α) (before ls more : List Line) :
    scan f before (ls ++ more) = scan f before ls ++ scan f (before ++ ls) more := by
  induction ls generalizing before with
  | nil => simp [scan]
  | cons l ls ih => simp [scan, ih, List.append_assoc]

theorem owned_append (ls more : List Line) : owned (ls ++ more) = owned ls ++ scan ownedAt ls more :=
  scan_append ownedAt [] ls more

theorem owned_sample (earlier later : List Line) (s : Sample) :
    (ownerAfter earlier s.name, earlier.length + 1, s) ∈ owned (earlier ++ .sample s :: later) := by
  rw [owned_append, scan]
  simp [ownedAt]

theorem declared_settled {earlier later : List Line} (h : Along Declares [] (earlier ++ .sample s :: later)) :
    declared (earlier ++ .sample s :: later) (ownerAfter earlier s.name) =
      declared earlier (ownerAfter earlier s.name) := by
  -- from the end: each line behind the sample finds it among the samples before itself
  induction later using List.reverseRecOn with
  | nil => rw [declared_concat]; simp [declared]
  | append_singleton later l ih =>
    have hsplit : earlier ++ .sample s :: (later ++ [l]) = (earlier ++ .sample s :: later) ++ [l] := by simp
    rw [hsplit] at h ⊢
    obtain ⟨hbefore, hl⟩ := along_append.mp h
    rw [declared_concat, ih hbefore]
    have hlast := (along_cons.mp hl).1
    cases l with
    | silent | sample => simp [declared]
    | kind name k =>
      have hne := hlast.early name k rfl _ (owned_sample earlier later s)
      simp [declared, Ne.symm hne]

theorem along_allowed : Along Allowed [] ls ↔
    Along Declares [] ls ∧ ∀ o ∈ owned ls, TellsBound o.1 (declared ls o.1) o.2.2 := by
  constructor
  · intro h
    have hd : Along Declares [] ls := fun earlier l later hs => (h earlier l later hs).toDeclares
    refine ⟨hd, fun o ho => ?_⟩
    obtain ⟨earlier, l, later, rfl, hl⟩ := scan_split ho
    cases l with
    | silent | kind => simp [ownedAt] at hl
    | sample s =>
      obtain rfl := Option.some.inj hl
      change TellsBound (ownerAfter earlier s.name) (declared _ (ownerAfter earlier s.name)) s
      rw [declared_settled hd]
      exact (h earlier (.sample s) later rfl).bound s rfl
  · rintro ⟨hd, ht⟩ earlier l later rfl
    refine ⟨hd earlier l later rfl, ?_⟩
    rintro s rfl
    have hb := ht _ (owned_sample earlier later s)
    rwa [declared_settled hd] at hb

theorem accepted_iff {timestamp : Timestamp} {tags : Dict String String} {body : String} :
    (∃ ms, read timestamp tags body = .ok ms) ↔ ∃ ls, linesOf body = .ok ls ∧ Along Allowed [] ls := by
  have reading : (∃ fs, families body = .ok fs) ↔ ∃ ls, linesOf body = .ok ls ∧ Along Declares [] ls :=
    read_table_iff [] (Text.lines body.toList)
  constructor
  · rintro ⟨ms, h⟩
    obtain ⟨fs, hfs, -⟩ := Sample.bind_eq_ok h
    obtain ⟨ls, hl, hf⟩ := table_of_read h
    obtain ⟨ls', hl', hd⟩ := reading.mp ⟨fs, hfs⟩
    obtain rfl := Except.ok.inj (hl.symm.trans hl')
    exact ⟨ls, hl, along_allowed.mpr ⟨hd, flatten_table_iff.mp ⟨ms, hf⟩⟩⟩
  · rintro ⟨ls, hl, ha⟩
    obtain ⟨hd, ht⟩ := along_allowed.mp ha
    obtain ⟨fs, hfs⟩ := reading.mpr ⟨ls, hl, hd⟩
    have htable : (table []).read (([] : List Line).length + 1) (Text.lines body.toList) = .ok fs := hfs
    obtain ⟨ls', hl', rfl⟩ := read_table htable
    obtain rfl := Except.ok.inj (hl.symm.trans hl')
    obtain ⟨ms, hms⟩ := flatten_table_iff.mpr ht
    exact ⟨ms, by rw [read, hfs]; exact hms⟩

/-- The bodies that are accepted, with any tags: line by line they are written as the grammar has them, and no
line stands where the lines before it do not allow it. -/
theorem accepted_iff_written (timestamp : Timestamp) (tags : Dict String String) (body : String) :
    (∃ ms, read timestamp tags body = .ok ms) ↔ ∃ ls, List.Forall₂ WrittenLine (trimmed body) ls ∧
      ∀ earlier l later, ls = earlier ++ l :: later → Allowed earlier l := by
  simp only [accepted_iff, linesOf_iff, Along, List.nil_append]

end ScrapeRelay.Exposition

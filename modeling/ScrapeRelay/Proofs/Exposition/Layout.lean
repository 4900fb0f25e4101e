import ScrapeRelay.Proofs.Exposition.Prefixes
import ScrapeRelay.Proofs.Text

/-!
The layout of a body: how its lines end, the blanks around them, blank lines and free comments. None of it
changes the metrics. A fault moves down by the lines that were inserted before its own, also where it is found
long after its line was read.
-/

namespace ScrapeRelay.Exposition

inductive LineEnd where
  | feed
  | returnFeed
  | missing
  deriving DecidableEq

def LineEnd.chars : LineEnd → List Char
  | feed => ['\n']
  | returnFeed => ['\r', '\n']
  | missing => []

structure Row where
  text : List Char
  ending : LineEnd
  deriving DecidableEq

def Row.chars (r : Row) : List Char := r.text ++ r.ending.chars

/-- Rows that hold one line each: only the last one can miss its end. -/
def Proper : List Row → Prop
  | [] => True
  | r :: rest => '\n' ∉ r.text ∧ (rest ≠ [] → r.ending ≠ .missing) ∧ Proper rest

instance decidableProper : (rows : List Row) → Decidable (Proper rows)
  | [] => .isTrue trivial
  | r :: rest =>
    have := decidableProper rest
    inferInstanceAs (Decidable ('\n' ∉ r.text ∧ (rest ≠ [] → r.ending ≠ .missing) ∧ Proper rest))

structure Written (body : String) (rows : List Row) : Prop where
  chars : body.toList = rows.flatMap Row.chars
  proper : Proper rows

def SameInside (t u : List Char) : Prop :=
  ∃ inside lead trail lead' trail', t = lead ++ inside ++ trail ∧ u = lead' ++ inside ++ trail' ∧
    ∀ c ∈ lead ++ trail ++ lead' ++ trail', Text.isBlank c = true

/-- What becomes of the rows of a body: each is kept, perhaps with another end and other blanks, and new rows come
between. -/
inductive Edit where
  | kept (before after : Row)
  | inserted (row : Row)

namespace Edit

def before? : Edit → Option Row
  | kept r _ => some r
  | inserted _ => none

def after : Edit → Row
  | kept _ r => r
  | inserted r => r

inductive Harmless : Edit → Prop
  | kept {r s : Row} (h : SameInside r.text s.text) : Harmless (kept r s)
  | blank {r : Row} (h : isBlankLine r.text) : Harmless (inserted r)
  | comment {r : Row} (h : isFreeComment r.text) : Harmless (inserted r)

def insertedBefore : List Edit → Nat → Nat
  | inserted _ :: rest, n + 1 => insertedBefore rest (n + 1) + 1
  | kept _ _ :: rest, n + 2 => insertedBefore rest (n + 1)
  | _, _ => 0

end Edit

/-! Rows and their lines -/

variable {rows : List Row} {body other : String} {t u : List Char} {edits : List Edit}

theorem read_trim (h : Text.trim t = Text.trim u) : Line.read t = Line.read u := by
  rw [Line.read, Line.read, h]

theorem SameInside.trim (h : SameInside t u) : Text.trim t = Text.trim u := by
  obtain ⟨inside, lead, trail, lead', trail', rfl, rfl, hb⟩ := h
  simp only [List.forall_mem_append] at hb
  obtain ⟨⟨⟨hlead, htrail⟩, hlead'⟩, htrail'⟩ := hb
  rw [Text.trim_append_blanks _ htrail, Text.trim_blanks_append hlead, Text.trim_append_blanks _ htrail',
    Text.trim_blanks_append hlead']

theorem read_first {ls ts : List (List Char)} (h : Text.trim t = Text.trim u)
    (hr : ∀ (fs : Families) n, fs.read n ls = fs.read n ts) (fs : Families) (n : Nat) :
    fs.read n (t :: ls) = fs.read n (u :: ts) := by
  rw [Families.read, Families.read, read_trim h]
  split
  · rfl
  · exact hr _ _

theorem read_rows (h : Proper rows) (fs : Families) (n : Nat) :
    fs.read n (Text.lines (rows.flatMap Row.chars)) = fs.read n (rows.map (·.text)) := by
  induction rows generalizing fs n with
  | nil => rfl
  | cons r rest ih =>
    obtain ⟨hn, he, hrest⟩ := h
    rw [List.flatMap_cons, List.map_cons, Row.chars, List.append_assoc]
    cases hr : r.ending with
    | feed =>
      obtain ⟨l, hl, ht⟩ := Text.lines_ended (rest.flatMap Row.chars) hn
      rw [LineEnd.chars, List.singleton_append, hl]
      exact read_first ht (ih hrest) fs n
    | returnFeed =>
      have hn' : '\n' ∉ r.text ++ ['\r'] := by simpa using hn
      obtain ⟨l, hl, ht⟩ := Text.lines_ended (rest.flatMap Row.chars) hn'
      have chars : r.text ++ (LineEnd.returnFeed.chars ++ rest.flatMap Row.chars) =
          r.text ++ ['\r'] ++ '\n' :: rest.flatMap Row.chars := by
        simp [LineEnd.chars]
      rw [chars, hl]
      exact read_first (ht.trans (Text.trim_append_blanks r.text Text.blank_return)) (ih hrest) fs n
    | missing =>
      -- an empty text behind the last line feed is a row, but no line
      obtain rfl : rest = [] := by_contra fun hne => he hne hr
      rw [LineEnd.chars, List.flatMap_nil, List.append_nil, List.append_nil, List.map_nil]
      obtain ⟨hl, ht⟩ | hl := Text.lines_single hn
      · rw [hl, ht]
        rfl
      · rw [hl]

theorem families_rows (h : Written body rows) : families body = Families.read [] 1 (rows.map (·.text)) := by
  rw [families, h.chars, read_rows h.proper]

theorem exists_rows (body : String) : ∃ rows, Written body rows := by
  suffices ∃ rows, body.toList = rows.flatMap Row.chars ∧ Proper rows by
    obtain ⟨rows, chars, proper⟩ := this
    exact ⟨rows, chars, proper⟩
  induction body.toList with
  | nil => exact ⟨[], rfl, trivial⟩
  | cons c s ih =>
    obtain ⟨rows, rfl, proper⟩ := ih
    by_cases hc : c = '\n'
    · subst hc
      exact ⟨⟨[], .feed⟩ :: rows, rfl, by simp, by simp, proper⟩
    · cases rows with
      | nil => exact ⟨[⟨[c], .missing⟩], rfl, by simpa using Ne.symm hc, by simp, trivial⟩
      | cons r rest =>
        obtain ⟨hn, he, hrest⟩ := proper
        refine ⟨⟨c :: r.text, r.ending⟩ :: rest, ?_, ?_, he, hrest⟩
        · simp [Row.chars]
        · exact fun hm => (List.mem_cons.mp hm).elim (fun h => hc h.symm) hn

/-! Samples with other line numbers -/

def Family.renumbered (g : Nat → Nat) (f : Family) : Family :=
  { f with samples := f.samples.map (Prod.map g id) }

def Families.renumbered (g : Nat → Nat) (fs : Families) : Families := fs.map (Family.renumbered g)

def Error.renumbered (g : Nat → Nat) (e : Error) : Error := { e with line := g e.line }

section Renumbered

variable (g : Nat → Nat) (fs : Families)

theorem find_renumbered (name : String) :
    (fs.renumbered g).find name = (fs.find name).map (Family.renumbered g) := by
  rw [Families.renumbered, Families.find, List.find?_map]
  rfl

theorem kind?_renumbered (name : String) : (fs.renumbered g).kind? name = fs.kind? name := by
  rw [Families.kind?, Families.kind?, find_renumbered]
  cases fs.find name <;> rfl

theorem owner_renumbered (name : String) : (fs.renumbered g).owner name = fs.owner name := by
  simp only [Families.owner, kind?_renumbered]

theorem update_renumbered (name : String) {u v : Family → Family}
    (h : ∀ f, v (f.renumbered g) = (u f).renumbered g) :
    (fs.renumbered g).update name v = (fs.update name u).renumbered g := by
  induction fs with
  | nil => exact congrArg (fun f => [f]) (h ⟨name, none, []⟩)
  | cons f rest ih =>
    simp only [Families.renumbered] at ih
    simp only [Families.renumbered, List.map_cons, Families.update, ih, h]
    rw [apply_ite (List.map (Family.renumbered g))]
    rfl

theorem declare_renumbered (name : String) (k : Family.Kind) :
    (fs.renumbered g).declare name k = (fs.declare name k).map (Families.renumbered g) := by
  let typed (f : Family) : Family := { f with kind := some k }
  have update : (fs.renumbered g).update name typed = (fs.update name typed).renumbered g :=
    update_renumbered g fs name fun f => rfl
  simp only [Families.declare, find_renumbered]
  rw [update]
  obtain hf | ⟨⟨fname, kind, samples⟩, hf⟩ := Option.eq_none_or_eq_some (fs.find name)
  · rw [hf]
    rfl
  · rw [hf]
    cases kind <;> cases samples <;> rfl

theorem add_renumbered (n : Nat) (l : Line) :
    (fs.renumbered g).add (g n) l = (fs.add n l).map (Families.renumbered g) := by
  cases l with
  | silent => rfl
  | kind name k => exact declare_renumbered g fs name k
  | sample s =>
    refine congrArg Except.ok ?_
    rw [Families.collect, owner_renumbered, Families.collect]
    apply update_renumbered
    intro f
    simp [Family.renumbered]

theorem metricsOf_renumbered (c : Family.Context) (f : Family) (samples : List (Nat × Sample)) :
    f.metricsOf c (samples.map (Prod.map g id)) = (f.metricsOf c samples).mapError (Error.renumbered g) := by
  induction samples with
  | nil => rfl
  | cons o rest ih =>
    obtain ⟨line, s⟩ := o
    rw [List.map_cons, Prod.map_apply, id_eq, Family.metricsOf, Family.metricsOf, ih]
    cases f.metric c s with
    | error fault => rfl
    | ok m => cases f.metricsOf c rest <;> rfl

theorem metrics_renumbered (c : Family.Context) (f : Family) :
    (f.renumbered g).metrics c = (f.metrics c).mapError (Error.renumbered g) := by
  have own : (f.renumbered g).metricsOf c (f.samples.map (Prod.map g id)) =
      f.metricsOf c (f.samples.map (Prod.map g id)) := metricsOf_congr (f := f) (g := f.renumbered g) c rfl rfl _
  exact own.trans (metricsOf_renumbered g c f f.samples)

theorem flatten_renumbered (c : Family.Context) :
    flatten c (fs.renumbered g) = (flatten c fs).mapError (Error.renumbered g) := by
  induction fs with
  | nil => rfl
  | cons f rest ih =>
    rw [Families.renumbered] at ih
    rw [Families.renumbered, List.map_cons, flatten, flatten, ih, metrics_renumbered]
    cases f.metrics c with
    | error e => rfl
    | ok ms => cases flatten c rest <;> rfl

end Renumbered

/-! Edits -/

open Edit

theorem read_edits {g : Nat → Nat} (h : ∀ e ∈ edits, e.Harmless) (fs : Families) (n m : Nat)
    (hg : ∀ k, g (n + k) = m + k + insertedBefore edits (k + 1)) :
    (fs.renumbered g).read m (edits.map fun e => e.after.text) =
      ((fs.read n ((edits.filterMap before?).map (·.text))).map (Families.renumbered g)).mapError
        (Error.renumbered g) := by
  -- `n` and `m` rows are read so far, and `g` gives the numbers of those to come
  induction edits generalizing fs n m with
  | nil => rfl
  | cons e rest ih =>
    obtain ⟨he, hrest⟩ := List.forall_mem_cons.mp h
    have silent {t : List Char} (ht : Line.read t = .ok .silent) {r : Row} :
        (∀ k, g (n + k) = m + k + insertedBefore (inserted r :: rest) (k + 1)) →
        (fs.renumbered g).read m (t :: rest.map fun e => e.after.text) =
          ((fs.read n ((rest.filterMap before?).map (·.text))).map (Families.renumbered g)).mapError
            (Error.renumbered g) := by
      intro hg
      rw [Families.read, ht]
      refine ih hrest fs n (m + 1) fun k => ?_
      have := hg k
      simp only [insertedBefore] at this
      omega
    cases he with
    | blank hb => exact silent (read_blank hb) hg
    | comment hc => exact silent (read_freeComment hc) hg
    | @kept r s hs =>
      have here : g n = m := hg 0
      have said : (Line.read (kept r s).after.text >>= (fs.renumbered g).add m) =
          (Line.read r.text >>= fs.add n).map (Families.renumbered g) := by
        rw [← here, ← read_trim (u := (kept r s).after.text) hs.trim]
        cases Line.read r.text with
        | error f => rfl
        | ok l => exact add_renumbered g fs n l
      have first : (kept r s :: rest).filterMap before? = r :: rest.filterMap before? := rfl
      rw [first, List.map_cons, List.map_cons, Families.read, Families.read, said]
      cases Line.read r.text >>= fs.add n with
      | error f => exact congrArg (fun m => Except.error (Error.mk m f)) here.symm
      | ok fs' =>
        refine ih hrest fs' (n + 1) (m + 1) fun k => ?_
        have := hg (k + 1)
        rw [Nat.add_right_comm, Nat.add_assoc, this]
        simp only [insertedBefore]
        omega

/-- Line ends, blanks around lines, blank lines and free comments change nothing but the line numbers: with any
of them changed, any body has the same metrics, or the same fault as many lines further down as were inserted
before its line. -/
theorem read_relaid (timestamp : Timestamp) (tags : Dict String String) (body : String) :
    (∃ rows, Written body rows) ∧
      ∀ edits other, Written body (edits.filterMap before?) → Written other (edits.map Edit.after) →
        (∀ e ∈ edits, e.Harmless) →
          read timestamp tags other = (read timestamp tags body).mapError fun e =>
            { e with line := e.line + insertedBefore edits e.line } := by
  refine ⟨exists_rows body, fun edits other hb ho h => ?_⟩
  let g (line : Nat) : Nat := line + insertedBefore edits line
  have texts : (edits.map Edit.after).map (·.text) = edits.map fun e => e.after.text := List.map_map
  have relaid : families other = ((families body).map (Families.renumbered g)).mapError (Error.renumbered g) := by
    rw [families_rows hb, families_rows ho, texts]
    exact read_edits h [] 1 1 fun k => by rw [Nat.add_comm 1 k]
  rw [read, read, relaid]
  cases families body with
  | error e => rfl
  | ok fs => exact flatten_renumbered g fs ⟨timestamp, tags⟩

def compact : String := "# TYPE lat summary\nup 1\nlat 2"

def spacious : String := "# so far\n\t# TYPE lat summary\r\nup 1\n  \n\r\n  lat 2 \n#"

def spaced : List Edit :=
  [inserted ⟨"# so far".toList, .feed⟩,
    kept ⟨"# TYPE lat summary".toList, .feed⟩ ⟨"\t# TYPE lat summary".toList, .returnFeed⟩,
    kept ⟨"up 1".toList, .feed⟩ ⟨"up 1".toList, .feed⟩, inserted ⟨[' ', ' '], .feed⟩,
    inserted ⟨[], .returnFeed⟩,
    kept ⟨"lat 2".toList, .missing⟩ ⟨"  lat 2 ".toList, .feed⟩, inserted ⟨['#'], .missing⟩]

theorem read_relaid_spaced :
    Written compact (spaced.filterMap before?) ∧ Written spacious (spaced.map Edit.after) ∧
    (∀ e ∈ spaced, e.Harmless) ∧
    read ⟨0, 0⟩ .empty compact = .error ⟨3, .missingBound "lat".toList "quantile"⟩ ∧
    read ⟨0, 0⟩ .empty spacious = .error ⟨6, .missingBound "lat".toList "quantile"⟩ := by
  have before : Written compact (spaced.filterMap before?) := ⟨by decide +kernel, by decide +kernel⟩
  have after : Written spacious (spaced.map Edit.after) := ⟨by decide +kernel, by decide +kernel⟩
  have same {t u : List Char} (inside lead trail lead' trail' : List Char) (ht : t = lead ++ inside ++ trail)
      (hu : u = lead' ++ inside ++ trail') (hb : (lead ++ trail ++ lead' ++ trail').all Text.isBlank = true) :
      SameInside t u := ⟨inside, lead, trail, lead', trail', ht, hu, List.all_eq_true.mp hb⟩
  have harmless : ∀ e ∈ spaced, e.Harmless := by
    simp only [spaced, List.forall_mem_cons, List.not_mem_nil, false_implies, implies_true, and_true]
    refine ⟨.comment ⟨" so far".toList, by decide +kernel, by decide +kernel⟩,
      .kept (same "# TYPE lat summary".toList [] [] ['\t'] [] rfl rfl rfl),
      .kept (same "up 1".toList [] [] [] [] rfl rfl rfl), .blank rfl, .blank rfl,
      .kept (same "lat 2".toList [] [] [' ', ' '] [' '] rfl rfl rfl),
      .comment ⟨[], by decide +kernel, by decide +kernel⟩⟩
  have fault : read ⟨0, 0⟩ .empty compact = .error ⟨3, .missingBound "lat".toList "quantile"⟩ := by
    decide +kernel
  refine ⟨before, after, harmless, fault, ?_⟩
  rw [(read_relaid ⟨0, 0⟩ .empty compact).2 spaced spacious before after harmless, fault]
  rfl

end ScrapeRelay.Exposition

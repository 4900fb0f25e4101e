import ScrapeRelay.Proofs.Decimal.ReadBack
import ScrapeRelay.Proofs.Exposition.Blocks
import ScrapeRelay.Proofs.Exposition.Grammar
import ScrapeRelay.Status.Board

/-!
The gauges of the board, written down and read again: every series comes back as one metric with its own labels
and its own value.
-/

namespace ScrapeRelay.Status

open Exposition

variable {b : Board} {f : Family} {s : Series} {series : List Series}

/-! The text of the board in lines -/

def helpText (name help : String) : List Char := ("# HELP " ++ name ++ " " ++ help).toList

def kindText (name : String) : List Char := ("# TYPE " ++ name ++ " gauge").toList

def seriesLabels (s : Series) : List (List Char × List Char) :=
  [("name".toList, s.labels.name.toList), ("namespace".toList, s.labels.namespace.toList)]

def seriesText (name : String) (s : Series) : List Char :=
  spelled name.toList (seriesLabels s) (Decimal.text s.value).toList

def seriesSample (name : String) (s : Series) : Sample :=
  ⟨name, [("name", s.labels.name), ("namespace", s.labels.namespace)], s.value⟩

def familyBlock (f : Family) (series : List Series) : Block :=
  ⟨f.name, helpText f.name f.help, kindText f.name,
    (series.mergeSort Board.seriesOrder).map fun s => (seriesText f.name s, seriesSample f.name s)⟩

def upHelp : String := "Collector service status (1=running)"

def upBlock (up : Float) : Block :=
  ⟨"strata_up", helpText "strata_up" upHelp, kindText "strata_up",
    [("strata_up ".toList ++ (Decimal.text up).toList, ⟨"strata_up", [], up⟩)]⟩

def blocks (b : Board) : List Block :=
  (Family.all.filter fun f => !(b.gauges.family f).values.isEmpty).map
    (fun f => familyBlock f (b.gauges.family f).values) ++ [upBlock b.up]

theorem escapeLabel_eq (c : Char) : Board.escapeLabel c = escape c := by
  unfold Board.escapeLabel
  split
  · rename_i h
    subst h
    rfl
  · split
    · rename_i h
      subst h
      rfl
    · split
      · rename_i h
        subst h
        rfl
      · rename_i hb hq hn
        exact (escape_plain hq hb hn).symm

theorem seriesLine_eq (name : String) (s : Series) :
    (Board.seriesLine name s).toList = seriesText name s ++ ['\n'] := by
  have he : Board.escapeLabel = escape := funext escapeLabel_eq
  simp [Board.seriesLine, Board.labelText, seriesText, seriesLabels, spelled, spelledLabel, escaped, he]

theorem header_eq (name help : String) :
    (Board.header name help).toList = helpText name help ++ '\n' :: (kindText name ++ ['\n']) := by
  simp [Board.header, helpText, kindText]

theorem familyText_eq (f : Family) (h : series.isEmpty = false) :
    (Board.familyText f series).toList = (familyBlock f series).lines.flatMap (· ++ ['\n']) := by
  have hs : ((series.mergeSort Board.seriesOrder).map (Board.seriesLine f.name)).flatMap String.toList =
      ((familyBlock f series).samples.map (·.1)).flatMap (· ++ ['\n']) := by
    simp only [familyBlock, List.map_map, List.flatMap_map]
    congr 1
    funext s
    exact seriesLine_eq f.name s
  rw [Board.familyText, h, if_neg Bool.false_ne_true, String.toList_append, header_eq, String.toList_join, hs,
    Block.lines]
  simp [familyBlock]

theorem flatMap_filter {α β : Type} {p : α → Bool} {g : α → List β} (l : List α)
    (h : ∀ a ∈ l, p a = false → g a = []) : (l.filter p).flatMap g = l.flatMap g := by
  induction l with
  | nil => rfl
  | cons a l ih =>
    obtain ⟨ha, hl⟩ := List.forall_mem_cons.mp h
    cases hp : p a with
    | true => rw [List.filter_cons_of_pos hp, List.flatMap_cons, List.flatMap_cons, ih hl]
    | false => rw [List.filter_cons_of_neg (by simp [hp]), List.flatMap_cons, ha hp, List.nil_append, ih hl]

theorem render_eq (b : Board) : b.render.toList = ((blocks b).flatMap Block.lines).flatMap (· ++ ['\n']) := by
  have families : (String.join (Family.all.map fun f => Board.familyText f (b.gauges.family f).values)).toList =
      (((Family.all.filter fun f => !(b.gauges.family f).values.isEmpty).map
        fun f => familyBlock f (b.gauges.family f).values).flatMap Block.lines).flatMap (· ++ ['\n']) := by
    rw [String.toList_join, List.flatMap_map, List.flatMap_map, List.flatMap_assoc, ← flatMap_filter Family.all]
    · apply List.flatMap_congr
      intro f hf
      exact familyText_eq f (by simpa using (List.mem_filter.mp hf).2)
    · intro f _ hf
      have he : (b.gauges.family f).values.isEmpty = true := by simpa using hf
      simp [Board.familyText, he]
  rw [Board.render, String.toList_append, String.toList_append, String.toList_append,
    String.toList_append, families, blocks, List.flatMap_append, List.flatMap_append, header_eq]
  simp [upBlock, Block.lines, upHelp]

/-! The blocks of the board fit -/

def IsHelp (help : String) : Prop :=
  '\n' ∉ help.toList ∧ ∃ c, help.toList.getLast? = some c ∧ Text.isBlank c = false

theorem isHelp_of {help : String}
    (h : '\n' ∉ help.toList ∧ help.toList.getLast?.map Text.isBlank = some false) : IsHelp help :=
  ⟨h.1, Option.map_eq_some_iff.mp h.2⟩

def directive (word name rest : List Char) : List Char := '#' :: ' ' :: (word ++ ' ' :: (name ++ ' ' :: rest))

theorem helpText_eq (name help : String) :
    helpText name help = directive ['H', 'E', 'L', 'P'] name.toList help.toList := by
  simp [helpText, directive]

theorem kindText_eq (name : String) :
    kindText name = directive ['T', 'Y', 'P', 'E'] name.toList ['g', 'a', 'u', 'g', 'e'] := by
  simp [kindText, directive]

theorem solid_name {name : List Char} (h : isMetricName name = true) :
    name ≠ [] ∧ ∀ c ∈ name, Text.isBlank c = false := by
  obtain ⟨hs, hc⟩ := isMetricName_iff.mp h
  refine ⟨?_, fun c hm => isBlank_nameChar (hc c hm)⟩
  rintro rfl
  simp at hs

theorem newline_name {name : List Char} (h : isMetricName name = true) : '\n' ∉ name :=
  fun hm => absurd ((solid_name h).2 _ hm) (by decide)

theorem getLast?_directive {rest : List Char} {c : Char} (h : rest.getLast? = some c) (word name : List Char) :
    (directive word name rest).getLast? = some c := by
  simp [directive, List.getLast?_cons, List.getLast?_append, h]

theorem directive_reads {word name rest : List Char} {c : Char} (hw : word ≠ [])
    (hs : ∀ c ∈ word, Text.isBlank c = false) (hn : isMetricName name = true) (hl : rest.getLast? = some c)
    (hb : Text.isBlank c = false) :
    Line.read (directive word name rest) = Line.comment (word :: name :: Text.words rest) := by
  obtain ⟨hne, hsolid⟩ := solid_name hn
  have htrim : Text.trim (directive word name rest) = directive word name rest :=
    Text.trim_eq_self (by decide) hb rfl (getLast?_directive hl word name)
  have hwords : Text.words (' ' :: (word ++ ' ' :: (name ++ ' ' :: rest))) = word :: name :: Text.words rest := by
    rw [Text.words_blank (by decide), Text.words_append hw hs (by decide),
      Text.words_append hne hsolid (by decide)]
  rw [Line.read, htrim, ← hwords]
  rfl

theorem help_reads {name help : String} (hn : isMetricName name.toList = true) (hh : IsHelp help) :
    Line.read (helpText name help) = .ok .silent := by
  obtain ⟨-, c, hl, hb⟩ := hh
  rw [helpText_eq, directive_reads (by simp) (by simp [Text.isBlank]) hn hl hb]
  simp [Line.comment, Line.subject, hn, bind, Except.bind]

theorem kind_reads {name : String} (hn : isMetricName name.toList = true) :
    Line.read (kindText name) = .ok (.kind name .gauge) := by
  have hk : Family.Kind.ofName? ['g', 'a', 'u', 'g', 'e'] = some .gauge := by decide
  have hb : Text.isBlank 'e' = false := by decide
  rw [kindText_eq, directive_reads (by simp) (by simp [Text.isBlank]) hn rfl hb,
    Text.words_last (by simp) (by simp [Text.isBlank])]
  simp [Line.comment, Line.subject, hn, hk, bind, Except.bind]

theorem family_name (f : Family) : isMetricName f.name.toList = true := by
  cases f <;> decide +kernel

theorem family_help (f : Family) : IsHelp f.help := by
  cases f <;> exact isHelp_of (by decide +kernel)

theorem up_name : isMetricName "strata_up".toList = true := by decide +kernel

theorem up_help : IsHelp upHelp := isHelp_of (by decide +kernel)

theorem written_series (hf : s.value.isFinite = true) (f : Family) :
    WrittenSample (seriesText f.name s) (seriesSample f.name s) := by
  have hnames : (seriesLabels s).map (·.1) = ["name".toList, "namespace".toList] := rfl
  have hlabels : ∀ l ∈ seriesLabels s, isLabelName l.1 = true := by
    intro l hl
    have hm : l.1 ∈ ["name".toList, "namespace".toList] := hnames ▸ List.mem_map_of_mem hl
    revert hm
    generalize l.1 = name
    exact (by decide : ∀ n ∈ ["name".toList, "namespace".toList], isLabelName n = true) name
  have hw := written_spelled (family_name f) hlabels (hnames ▸ by decide) (.plain (Decimal.number?_text hf))
  have hs : Sample.ofChars f.name.toList (seriesLabels s) s.value = seriesSample f.name s := by
    simp [Sample.ofChars, seriesLabels, seriesSample]
  exact hs ▸ hw

theorem written_up {x : Float} (hf : x.isFinite = true) :
    WrittenSample ("strata_up ".toList ++ (Decimal.text x).toList) ⟨"strata_up", [], x⟩ :=
  .bare up_name isGap_space (.plain (Decimal.number?_text hf)) (by simp)

theorem familyBlock_fits (f : Family) (h : ∀ s ∈ series, s.value.isFinite = true) :
    (familyBlock f series).Fits := by
  refine ⟨help_reads (family_name f) (family_help f), kind_reads (family_name f), fun t ht => ?_⟩
  obtain ⟨s, hs, rfl⟩ := List.mem_map.mp ht
  exact ⟨line_written (written_series (h s (List.mem_mergeSort.mp hs)) f), rfl⟩

theorem upBlock_fits {x : Float} (h : x.isFinite = true) : (upBlock x).Fits := by
  refine ⟨help_reads up_name up_help, kind_reads up_name, fun t ht => ?_⟩
  obtain rfl := List.mem_singleton.mp ht
  exact ⟨line_written (written_up h), rfl⟩

theorem names_nodup (b : Board) : ((blocks b).map (·.name)).Nodup := by
  have all : (Family.all.map Family.name ++ ["strata_up"]).Nodup := by decide
  refine List.Nodup.sublist ?_ all
  rw [blocks, List.map_append, List.map_map]
  exact (List.filter_sublist.map _).append (List.Sublist.refl _)

/-! The lines of the board -/

theorem newline_escaped (v : List Char) : '\n' ∉ escaped v := by
  intro h
  obtain ⟨c, -, hc⟩ := List.mem_flatMap.mp h
  by_cases hq : c = '"'
  · subst hq
    simp [escape] at hc
  · by_cases hb : c = '\\'
    · subst hb
      simp [escape] at hc
    · by_cases hn : c = '\n'
      · subst hn
        simp [escape] at hc
      · rw [escape_plain hq hb hn, List.mem_singleton] at hc
        exact hn hc.symm

theorem newline_number {x : Float} (h : x.isFinite = true) : '\n' ∉ (Decimal.text x).toList := by
  intro hm
  have hp := (plain_of_number (Decimal.number?_text h)).2 _ hm
  exact absurd hp (by decide)

theorem newline_series (hf : s.value.isFinite = true) (f : Family) : '\n' ∉ seriesText f.name s := by
  simp [seriesText, spelled, seriesLabels, spelledLabel, newline_name (family_name f), newline_escaped,
    newline_number hf]

def IsLine (l : List Char) : Prop := '\n' ∉ l ∧ l.getLast? ≠ some '\r'

theorem isLine_of_last {l : List Char} {c : Char} (hn : '\n' ∉ l) (hl : l.getLast? = some c)
    (hb : Text.isBlank c = false) : IsLine l := by
  refine ⟨hn, ?_⟩
  rw [hl]
  rintro ⟨⟩
  exact absurd hb (by decide)

theorem isLine_written {w : List Char} {sample : Sample} (h : WrittenSample w sample) (hn : '\n' ∉ w) :
    IsLine w := by
  obtain ⟨c, hc, hb⟩ := h.last
  exact isLine_of_last hn hc hb

theorem header_lines {name help : String} (hn : isMetricName name.toList = true) (hh : IsHelp help) :
    IsLine (helpText name help) ∧ IsLine (kindText name) := by
  obtain ⟨hf, c, hl, hb⟩ := hh
  constructor
  · refine isLine_of_last ?_ (helpText_eq name help ▸ getLast?_directive hl ..) hb
    simp [helpText, newline_name hn, hf]
  · refine isLine_of_last (c := 'e') ?_ (kindText_eq name ▸ getLast?_directive rfl ..) (by decide)
    simp [kindText, newline_name hn]

theorem familyBlock_lines (f : Family) (h : ∀ s ∈ series, s.value.isFinite = true) :
    ∀ l ∈ (familyBlock f series).lines, IsLine l := by
  have header := header_lines (family_name f) (family_help f)
  rw [Block.lines, List.forall_mem_cons, List.forall_mem_cons]
  refine ⟨header.1, header.2, fun l hl => ?_⟩
  obtain ⟨t, ht, rfl⟩ := List.mem_map.mp hl
  obtain ⟨s, hs, rfl⟩ := List.mem_map.mp ht
  have hf := h s (List.mem_mergeSort.mp hs)
  exact isLine_written (written_series hf f) (newline_series hf f)

theorem upBlock_lines {x : Float} (h : x.isFinite = true) : ∀ l ∈ (upBlock x).lines, IsLine l := by
  have header := header_lines up_name up_help
  rw [Block.lines, List.forall_mem_cons, List.forall_mem_cons]
  refine ⟨header.1, header.2, fun l hl => ?_⟩
  obtain rfl := List.mem_singleton.mp hl
  refine isLine_written (written_up h) ?_
  simp [newline_number h]

structure Board.Finite (b : Board) : Prop where
  series : ∀ f, ∀ s ∈ (b.gauges.family f).values, s.value.isFinite = true
  up : b.up.isFinite = true

theorem forall_blocks {P : Block → Prop} (h : b.Finite)
    (hf : ∀ f series, (∀ s ∈ series, s.value.isFinite = true) → P (familyBlock f series))
    (hu : ∀ x : Float, x.isFinite = true → P (upBlock x)) : ∀ k ∈ blocks b, P k := by
  intro k hk
  rcases List.mem_append.mp hk with hk | hk
  · obtain ⟨f, -, rfl⟩ := List.mem_map.mp hk
    exact hf f _ (h.series f)
  · obtain rfl := List.mem_singleton.mp hk
    exact hu b.up h.up

theorem render_lines (h : b.Finite) : Text.lines b.render.toList = (blocks b).flatMap Block.lines := by
  rw [render_eq]
  apply Text.lines_flatMap
  intro l hl
  obtain ⟨k, hk, hl⟩ := List.mem_flatMap.mp hl
  have hlines := forall_blocks (P := fun k => ∀ l ∈ k.lines, IsLine l) h (fun f _ => familyBlock_lines f)
    fun _ => upBlock_lines
  exact hlines k hk l hl

/-! Reading the board -/

def Board.shown (b : Board) : List (String × List (String × String) × Float) :=
  (Family.all.flatMap fun f => ((b.gauges.family f).values.mergeSort Board.seriesOrder).map fun s =>
    (f.name, [("name", s.labels.name), ("namespace", s.labels.namespace)], s.value)) ++ [("strata_up", [], b.up)]

theorem blocks_numbers (h : b.Finite) : ∀ k ∈ blocks b, ∀ t ∈ k.samples, t.2.value.isNaN = false := by
  refine forall_blocks (P := fun k => ∀ t ∈ k.samples, t.2.value.isNaN = false) h ?_ ?_
  · intro f series hf t ht
    obtain ⟨s, hs, rfl⟩ := List.mem_map.mp ht
    exact Decimal.isNaN_of_finite (hf s (List.mem_mergeSort.mp hs))
  · intro x hx t ht
    obtain rfl := List.mem_singleton.mp ht
    exact Decimal.isNaN_of_finite hx

def shownMetric (timestamp : Timestamp) (g : String × List (String × String) × Float) : Metric :=
  ⟨g.1, Dict.ofList [("gauge", g.2.2)], Dict.ofList g.2.1, timestamp, .gauge⟩

theorem blocks_metrics (b : Board) (timestamp : Timestamp) :
    ((blocks b).flatMap fun k => k.samples.map fun t => gaugeMetric ⟨timestamp, .empty⟩ k.name t.2) =
      b.shown.map (shownMetric timestamp) := by
  rw [blocks, List.flatMap_append, List.flatMap_map, Board.shown, List.map_append, List.map_flatMap,
    flatMap_filter]
  · congr 1
    apply List.flatMap_congr
    intro f _
    simp only [familyBlock, List.map_map]
    rfl
  · intro f _ hf
    have he : (b.gauges.family f).values = [] := by simpa using hf
    simp [familyBlock, he]

/-- A relay can scrape itself: what the board shows is read again as it is, one gauge for each series of each
family that has any, and one that says that the service runs. -/
theorem read_render (h : b.Finite) (timestamp : Timestamp) :
    Exposition.read timestamp .empty b.render = .ok (b.shown.map (shownMetric timestamp)) := by
  have fits : ∀ k ∈ blocks b, k.Fits := forall_blocks h (fun f _ => familyBlock_fits f) fun _ => upBlock_fits
  have hread : families b.render = .ok (Block.families 1 (blocks b)) := by
    rw [families, render_lines h, read_blocks fits (by simpa using names_nodup b), List.nil_append]
  rw [Exposition.read, hread, ← blocks_metrics]
  exact flatten_blocks (blocks_numbers h) 1

def quoted : Board := { Board.empty.updateCollector ⟨"a\"b\\", "c\nd\r"⟩ .zero with up := 1 }

theorem read_render_quoted : quoted.shown.length = 7 ∧
    Exposition.read ⟨0, 0⟩ .empty quoted.render = .ok (quoted.shown.map (shownMetric ⟨0, 0⟩)) := by
  have finite : quoted.Finite := ⟨fun f => by cases f <;> decide +kernel, by decide +kernel⟩
  exact ⟨by decide +kernel, read_render finite ⟨0, 0⟩⟩

end ScrapeRelay.Status

import Mathlib.Data.List.Perm.Basic
import ScrapeRelay.Proofs.Exposition.Acceptance

/-!
Samples in another order. Behind the last type each line is taken in by what the lines before decide: it is
allowed or not, and has its metric or none, whatever stands between. So those lines can change places.
-/

namespace ScrapeRelay.Exposition

def isSampleText : List Char → Bool
  | [] => false
  | c :: _ => c != '#'

def isTypeText : List Char → Bool
  | '#' :: rest => (Text.words rest).head? == some typeWord
  | _ => false

structure Shuffled (texts others : List (List Char)) : Prop where
  places : List.Forall₂ (fun t u => t = u ∨ isSampleText t = true ∧ isSampleText u = true) texts others
  samples : (texts.filter isSampleText).Perm (others.filter isSampleText)

def TypesFirst (texts : List (List Char)) : Prop :=
  texts.Pairwise fun t u => isSampleText t = true → isTypeText u = false

def Line.isType : Line → Bool
  | .kind _ _ => true
  | _ => false

variable {before mid ls : List Line} {l : Line} {text : List Char}
  {texts others head tail tail' : List (List Char)}

/-! Texts -/

theorem sampleText_not_type (h : isSampleText text = true) : isTypeText text = false := by
  cases text with
  | nil => rfl
  | cons d rest =>
    have hd : d ≠ '#' := by simpa [isSampleText] using h
    rw [isTypeText]
    rintro rest ⟨⟩
    exact hd rfl

theorem rest_kept (h : List.Forall₂ (fun t u => t = u ∨ isSampleText t = true ∧ isSampleText u = true)
    texts others) : texts.filter (fun t => !isSampleText t) = others.filter fun t => !isSampleText t := by
  induction h with
  | nil => rfl
  | cons htu _ ih =>
    rw [List.filter_cons, List.filter_cons, ih]
    obtain rfl | ⟨ht, hu⟩ := htu
    · rfl
    · rw [ht, hu]
      rfl

theorem Shuffled.perm (h : Shuffled texts others) : texts.Perm others := by
  refine (List.filter_append_perm isSampleText texts).symm.trans
    (.trans ?_ (List.filter_append_perm isSampleText others))
  rw [rest_kept h.places]
  exact h.samples.append_right _

theorem Shuffled.split (h : Shuffled texts others) (ht : TypesFirst texts) : ∃ head tail tail',
    texts = head ++ tail ∧ others = head ++ tail' ∧ tail.Perm tail' ∧
    ∀ t ∈ tail, isTypeText t = false := by
  obtain ⟨places, samples⟩ := h
  induction places with
  | nil => exact ⟨[], [], [], rfl, rfl, .nil, by simp⟩
  | @cons t u texts others htu hrest ih =>
    obtain ⟨hfirst, hlater⟩ := List.pairwise_cons.mp ht
    cases hs : isSampleText t with
    | true =>
      -- the first sample, so everything from here on is the tail
      refine ⟨[], t :: texts, u :: others, rfl, rfl, Shuffled.perm ⟨.cons htu hrest, samples⟩, ?_⟩
      exact List.forall_mem_cons.mpr ⟨sampleText_not_type hs, fun u hu => hfirst u hu hs⟩
    | false =>
      obtain rfl : t = u := htu.resolve_right (by simp [hs])
      rw [List.filter_cons, List.filter_cons, hs] at samples
      obtain ⟨head, tail, tail', rfl, rfl, hp, hq⟩ := ih hlater samples
      exact ⟨t :: head, tail, tail', rfl, rfl, hp, hq⟩

theorem written_type (h : WrittenLine text l) (ht : isTypeText text = false) : l.isType = false := by
  cases h with
  | blank | sample | help | remark => rfl
  | type hn hw => simp [isTypeText, hw] at ht

theorem written_types (h : List.Forall₂ WrittenLine texts ls) (hq : ∀ t ∈ texts, isTypeText t = false) :
    ∀ l ∈ ls, l.isType = false := by
  induction h with
  | nil => simp
  | cons hw _ ih =>
    obtain ⟨ht, hrest⟩ := List.forall_mem_cons.mp hq
    exact List.forall_mem_cons.mpr ⟨written_type hw ht, ih hrest⟩

theorem reordered (h : List.Forall₂ WrittenLine (head ++ tail) ls) (hp : tail.Perm tail')
    (hq : ∀ t ∈ tail, isTypeText t = false) : ∃ before behind behind', ls = before ++ behind ∧
      List.Forall₂ WrittenLine (head ++ tail') (before ++ behind') ∧ behind.Perm behind' ∧
        ∀ l ∈ behind, l.isType = false := by
  have hhead := List.forall₂_take head.length h
  have htail := List.forall₂_drop head.length h
  rw [List.take_left] at hhead
  rw [List.drop_left] at htail
  obtain ⟨behind', hwritten, hperm⟩ := List.perm_comp_forall₂ hp.symm htail
  refine ⟨ls.take head.length, ls.drop head.length, behind', (List.take_append_drop _ _).symm,
    List.rel_append hhead hwritten, hperm.symm, written_types htail hq⟩

/-! Lines behind the last type -/

section Behind

variable (hmid : ∀ l ∈ mid, l.isType = false)

include hmid

theorem declared_behind (name : String) : declared (before ++ mid) name = declared before name := by
  have none : declared mid name = none := by
    apply List.findSome?_eq_none_iff.mpr
    intro l hl
    have := hmid l hl
    cases l <;> simp_all [Line.isType]
  rw [declared, List.findSome?_append]
  change (declared before name).or (declared mid name) = _
  rw [none, Option.or_none]

theorem typedNames_behind : typedNames (before ++ mid) = typedNames before := by
  have nil : typedNames mid = [] := by
    apply List.filterMap_eq_nil_iff.mpr
    intro l hl
    have := hmid l hl
    cases l <;> simp_all [Line.isType]
  rw [typedNames, List.filterMap_append]
  change typedNames before ++ typedNames mid = _
  rw [nil, List.append_nil]

theorem ownerAfter_behind (name : String) : ownerAfter (before ++ mid) name = ownerAfter before name := by
  have series (base : String) : holdsSeries (before ++ mid) base name = holdsSeries before base name := by
    rw [holdsSeries, holdsSeries, declared_behind hmid]
  rw [ownerAfter, ownerAfter, declared_behind hmid, typedNames_behind hmid]
  simp only [series]

theorem allowed_behind (hl : l.isType = false) : Allowed (before ++ mid) l ↔ Allowed before l := by
  have types {ls : List Line} : Declares ls l := by
    constructor <;> rintro name k rfl <;> cases hl
  have bound (s : Sample) :
      TellsBound (ownerAfter (before ++ mid) s.name)
        (declared (before ++ mid) (ownerAfter (before ++ mid) s.name)) s ↔
        TellsBound (ownerAfter before s.name) (declared before (ownerAfter before s.name)) s := by
    rw [ownerAfter_behind hmid, declared_behind hmid]
  constructor
  · intro h
    exact ⟨types, fun s hs => (bound s).mp (h.bound s hs)⟩
  · intro h
    exact ⟨types, fun s hs => (bound s).mpr (h.bound s hs)⟩

theorem along_behind : Along Allowed before mid ↔ ∀ l ∈ mid, Allowed before l := by
  constructor
  · intro h l hl
    obtain ⟨earlier, later, rfl⟩ := List.append_of_mem hl
    have hearlier : ∀ l ∈ earlier, l.isType = false := fun l hl => hmid l (List.mem_append_left _ hl)
    exact (allowed_behind hearlier (hmid l hl)).mp (h earlier l later rfl)
  · rintro h earlier l later rfl
    have hl : l ∈ earlier ++ l :: later := List.mem_append_right _ List.mem_cons_self
    have hearlier : ∀ l ∈ earlier, l.isType = false := fun l hl => hmid l (List.mem_append_left _ hl)
    exact (allowed_behind hearlier (hmid l hl)).mpr (h l hl)

theorem ownMetric_behind (c : Family.Context) : ownMetric c (before ++ mid) = ownMetric c before := by
  funext o
  rw [ownMetric, ownMetric, declared_behind hmid]

end Behind

def metricAfter (c : Family.Context) (before : List Line) (l : Line) : Option Metric :=
  l.sample?.bind fun s => sampleMetric c (ownerAfter before s.name) (declared before (ownerAfter before s.name)) s

theorem scan_behind (c : Family.Context) (hmid : ∀ l ∈ mid, l.isType = false)
    (hls : ∀ l ∈ ls, l.isType = false) :
    (scan ownedAt (before ++ mid) ls).filterMap (ownMetric c before) = ls.filterMap (metricAfter c before) := by
  induction ls generalizing mid with
  | nil => rfl
  | cons l ls ih =>
    obtain ⟨hl, hls⟩ := List.forall_mem_cons.mp hls
    have hnext : ∀ l' ∈ mid ++ [l], l'.isType = false :=
      List.forall_mem_append.mpr ⟨hmid, by simpa using hl⟩
    rw [scan, List.filterMap_append, List.append_assoc, ih hnext hls, List.filterMap_cons]
    cases l with
    | silent => rfl
    | kind => cases hl
    | sample s =>
      have own : ownMetric c before (ownerAfter before s.name, (before ++ mid).length + 1, s) =
          metricAfter c before (.sample s) := rfl
      simp only [ownedAt, ownerAfter_behind hmid, Option.toList_some, List.filterMap_cons, List.filterMap_nil, own]
      cases metricAfter c before (.sample s) <;> rfl

theorem metrics_behind (c : Family.Context) (hls : ∀ l ∈ ls, l.isType = false) :
    (owned (before ++ ls)).filterMap (ownMetric c (before ++ ls)) =
      (owned before).filterMap (ownMetric c before) ++ ls.filterMap (metricAfter c before) := by
  have behind : (scan ownedAt (before ++ []) ls).filterMap (ownMetric c before) =
      ls.filterMap (metricAfter c before) :=
    scan_behind c (by simp) hls
  rw [List.append_nil] at behind
  rw [ownMetric_behind hls, owned_append, List.filterMap_append, behind]

/-! Bodies -/

section Bodies

variable {timestamp : Timestamp} {tags : Dict String String} {body other : String} {ms : List Metric}

theorem read_reordered (hb : trimmed body = head ++ tail) (ho : trimmed other = head ++ tail')
    (hp : tail.Perm tail') (hq : ∀ t ∈ tail, isTypeText t = false) (h : read timestamp tags body = .ok ms) :
    ∃ ms', read timestamp tags other = .ok ms' ∧ ms.Perm ms' := by
  obtain ⟨ls, hl, ha⟩ := accepted_iff.mp ⟨ms, h⟩
  have written := linesOf_iff.mp hl
  rw [hb] at written
  obtain ⟨before, behind, behind', rfl, written', perm, quiet⟩ := reordered written hp hq
  have quiet' : ∀ l ∈ behind', l.isType = false := fun l hl => quiet l (perm.mem_iff.mpr hl)
  have hl' : linesOf other = .ok (before ++ behind') := linesOf_iff.mpr (ho ▸ written')
  obtain ⟨ms', h'⟩ : ∃ ms', read timestamp tags other = .ok ms' := by
    apply accepted_iff.mpr
    refine ⟨_, hl', ?_⟩
    rw [along_append] at ha ⊢
    refine ⟨ha.1, (along_behind quiet').mpr fun l hl => ?_⟩
    exact (along_behind quiet).mp ha.2 l (perm.mem_iff.mpr hl)
  refine ⟨ms', h', (metrics_perm h hl).trans (.trans ?_ (metrics_perm h' hl').symm)⟩
  rw [metrics_behind _ quiet, metrics_behind _ quiet']
  exact (perm.filterMap _).append_left _

/-- Where all types come before the first sample, the samples can stand in any order: a body is still accepted
or still refused, and its metrics are the same but for their order. -/
theorem read_shuffled (hs : Shuffled (trimmed body) (trimmed other)) (ht : TypesFirst (trimmed body)) :
    ((∃ ms, read timestamp tags body = .ok ms) ↔ ∃ ms, read timestamp tags other = .ok ms) ∧
      ∀ ms ms', read timestamp tags body = .ok ms → read timestamp tags other = .ok ms' → ms.Perm ms' := by
  obtain ⟨head, tail, tail', hb, ho, hp, hq⟩ := hs.split ht
  have hq' : ∀ t ∈ tail', isTypeText t = false := fun t ht => hq t (hp.mem_iff.mpr ht)
  refine ⟨⟨?_, ?_⟩, fun ms ms' h h' => ?_⟩
  · rintro ⟨ms, h⟩
    obtain ⟨ms', h', -⟩ := read_reordered hb ho hp hq h
    exact ⟨ms', h'⟩
  · rintro ⟨ms, h⟩
    obtain ⟨ms', h', -⟩ := read_reordered ho hb hp.symm hq' h
    exact ⟨ms', h'⟩
  · obtain ⟨ms'', h'', perm⟩ := read_reordered hb ho hp hq h
    obtain rfl := Except.ok.inj (h'.symm.trans h'')
    exact perm

end Bodies

def inOrder : String := "# TYPE lat summary\nlat\x7bquantile=\"0.5\"\x7d 2\n\nup 1\n# so far\nlat_sum 4\ndown 0\n"

def outOfOrder : String :=
  "# TYPE lat summary\ndown 0\n\nlat_sum 4\n# so far\nup 1\nlat\x7bquantile=\"0.5\"\x7d 2\n"

theorem read_shuffled_twice : Shuffled (trimmed inOrder) (trimmed outOfOrder) ∧ TypesFirst (trimmed inOrder) ∧
    ∃ ms ms', read ⟨0, 0⟩ .empty inOrder = .ok ms ∧ read ⟨0, 0⟩ .empty outOfOrder = .ok ms' ∧
      ms.map (·.name) = ["lat", "up", "down"] ∧ ms'.map (·.name) = ["lat", "down", "up"] ∧ ms.Perm ms' := by
  have shuffled : Shuffled (trimmed inOrder) (trimmed outOfOrder) := ⟨by decide +kernel, by decide +kernel⟩
  have first : TypesFirst (trimmed inOrder) := by
    unfold TypesFirst
    decide +kernel
  have names : (read ⟨0, 0⟩ .empty inOrder).map (fun ms => ms.map (·.name)) = .ok ["lat", "up", "down"] := by
    decide +kernel
  have names' : (read ⟨0, 0⟩ .empty outOfOrder).map (fun ms => ms.map (·.name)) =
      .ok ["lat", "down", "up"] := by
    decide +kernel
  cases h : read ⟨0, 0⟩ .empty inOrder with
  | error e => simp [h, Except.map] at names
  | ok ms =>
    cases h' : read ⟨0, 0⟩ .empty outOfOrder with
    | error e => simp [h', Except.map] at names'
    | ok ms' =>
      rw [h] at names
      rw [h'] at names'
      exact ⟨shuffled, first, ms, ms', rfl, rfl, Except.ok.inj names, Except.ok.inj names',
        (read_shuffled shuffled first).2 ms ms' h h'⟩

end ScrapeRelay.Exposition

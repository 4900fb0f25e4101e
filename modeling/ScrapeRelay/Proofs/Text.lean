import Mathlib.Data.List.Basic
import Mathlib.Data.List.Induction
import Mathlib.Data.List.TakeWhile
import ScrapeRelay.Text.Blank
import ScrapeRelay.Text.Lines
import ScrapeRelay.Text.Separated

/-!
A run of characters ends at the first one that does not belong to it, a text without blanks at its ends is its own
trimming, and a text put together from words, lines or the pieces of a list splits into them.
-/

namespace ScrapeRelay.Text

section Runs

variable {p : Char → Bool} {run rest : List Char}

theorem takeWhile_run (h : ∀ c ∈ run, p c = true) (hr : ∀ c, rest.head? = some c → p c = false) :
    (run ++ rest).takeWhile p = run := by
  rw [List.takeWhile_append_of_pos h]
  cases rest with
  | nil => simp
  | cons c rest => simp [hr c rfl]

theorem dropWhile_run (h : ∀ c ∈ run, p c = true) (hr : ∀ c, rest.head? = some c → p c = false) :
    (run ++ rest).dropWhile p = rest := by
  rw [List.dropWhile_append_of_pos h]
  cases rest with
  | nil => rfl
  | cons c rest => simp [hr c rfl]

theorem head?_dropWhile_run {c : Char} (s : List Char) (h : (s.dropWhile p).head? = some c) : p c = false := by
  have := List.head?_dropWhile_not p s
  simpa [h] using this

end Runs

variable {s l : List Char} {c : Char}

theorem trimRight_concat (s : List Char) (h : isBlank c = false) : trimRight (s ++ [c]) = s ++ [c] := by
  induction s with
  | nil => simp [trimRight, h]
  | cons d s ih =>
    rw [List.cons_append, trimRight, ih]
    cases s <;> rfl

theorem trimRight_concat_blank (s : List Char) (h : isBlank c = true) : trimRight (s ++ [c]) = trimRight s := by
  induction s with
  | nil => simp [trimRight, h]
  | cons d s ih => rw [List.cons_append, trimRight, ih, trimRight]

theorem trimRight_length (s : List Char) : (trimRight s).length ≤ s.length := by
  induction s with
  | nil => simp [trimRight]
  | cons c s ih =>
    rw [trimRight]
    split
    · split <;> simp
    · simp_all

theorem trim_length (s : List Char) : (trim s).length ≤ s.length :=
  Nat.le_trans (trimRight_length _) (List.dropWhile_sublist _).length_le

theorem trim_concat_blank (s : List Char) (h : isBlank c = true) : trim (s ++ [c]) ≠ s ++ [c] := by
  have hlen : (trim (s ++ [c])).length ≤ s.length := by
    rw [trim, trimLeft, List.dropWhile_append]
    split
    · simp [h, trimRight]
    · rw [trimRight_concat_blank _ h]
      exact trim_length s
  intro he
  rw [he, List.length_append, List.length_singleton] at hlen
  omega

theorem trim_eq_self {d : Char} (hc : isBlank c = false) (hd : isBlank d = false) (h : s.head? = some c)
    (hl : s.getLast? = some d) : trim s = s := by
  have hleft : trimLeft s = s := by
    cases s with
    | nil => rfl
    | cons e s =>
      obtain rfl := Option.some.inj h
      exact List.dropWhile_cons_of_neg (by simp [hc])
  obtain ⟨t, rfl⟩ := List.getLast?_eq_some_iff.mp hl
  rw [trim, hleft, trimRight_concat t hd]

theorem trimRight_prefix (s : List Char) : trimRight s <+: s := by
  induction s using List.reverseRecOn with
  | nil => exact List.prefix_rfl
  | append_singleton s c ih =>
    cases h : isBlank c with
    | true =>
      rw [trimRight_concat_blank s h]
      exact ih.trans (List.prefix_append s [c])
    | false =>
      exact ⟨[], by rw [List.append_nil, trimRight_concat s h]⟩

theorem trimRight_last (h : (trimRight s).getLast? = some c) : isBlank c = false := by
  induction s using List.reverseRecOn with
  | nil => simp [trimRight] at h
  | append_singleton s d ih =>
    cases hd : isBlank d with
    | true => exact ih (by rwa [trimRight_concat_blank s hd] at h)
    | false =>
      rw [trimRight_concat s hd, List.getLast?_concat] at h
      rwa [← Option.some.inj h]

theorem trim_head (h : (trim s).head? = some c) : isBlank c = false := by
  obtain ⟨rest, hr⟩ := trimRight_prefix (trimLeft s)
  apply head?_dropWhile_run s
  change (trimLeft s).head? = some c
  rw [← hr, List.head?_append]
  exact congrArg (·.or rest.head?) h

theorem trim_trim (s : List Char) : trim (trim s) = trim s := by
  obtain h | ⟨c, hc⟩ : trim s = [] ∨ ∃ c, (trim s).head? = some c := by
    cases trim s <;> simp
  · rw [h]
    rfl
  · obtain ⟨d, hd⟩ : ∃ d, (trim s).getLast? = some d := by
      cases h : (trim s).getLast? with
      | none => simp [List.getLast?_eq_none_iff.mp h] at hc
      | some d => exact ⟨d, rfl⟩
    exact trim_eq_self (trim_head hc) (trimRight_last hd) hc hd

theorem trimRight_append_blanks (s : List Char) {trail : List Char} (h : ∀ d ∈ trail, isBlank d = true) :
    trimRight (s ++ trail) = trimRight s := by
  induction trail using List.reverseRecOn with
  | nil => rw [List.append_nil]
  | append_singleton trail d ih =>
    obtain ⟨ht, hd⟩ := List.forall_mem_append.mp h
    rw [← List.append_assoc, trimRight_concat_blank _ (hd d List.mem_cons_self), ih ht]

theorem trim_append_blanks (s : List Char) {trail : List Char} (h : ∀ d ∈ trail, isBlank d = true) :
    trim (s ++ trail) = trim s := by
  rw [trim, trim, trimLeft, trimLeft, List.dropWhile_append]
  split
  · next he =>
    rw [List.isEmpty_iff.mp he, List.dropWhile_eq_nil_iff.mpr h]
  · exact trimRight_append_blanks _ h

theorem trim_blanks_append {lead : List Char} (h : ∀ d ∈ lead, isBlank d = true) (s : List Char) :
    trim (lead ++ s) = trim s := by
  rw [trim, trimLeft, List.dropWhile_append_of_pos h]
  rfl

theorem words_cons (c : Char) (s : List Char) : words (c :: s) = if isBlank c then words s else
    match s, words s with
    | d :: _, w :: ws => if isBlank d then [c] :: w :: ws else (c :: w) :: ws
    | _, ws => [c] :: ws := rfl

theorem words_blank (h : isBlank c = true) (s : List Char) : words (c :: s) = words s := by
  rw [words_cons, if_pos h]

theorem words_grow {d : Char} {w : List Char} {ws : List (List Char)} (hc : isBlank c = false)
    (hd : isBlank d = false) (h : words (d :: s) = w :: ws) : words (c :: d :: s) = (c :: w) :: ws := by
  rw [words_cons, if_neg (by simp [hc]), h]
  exact if_neg (by simp [hd])

theorem words_append {w : List Char} (hne : w ≠ []) (hw : ∀ d ∈ w, isBlank d = false) (hc : isBlank c = true)
    (s : List Char) : words (w ++ c :: s) = w :: words s := by
  induction w with
  | nil => exact absurd rfl hne
  | cons d w ih =>
    obtain ⟨hd, hw⟩ := List.forall_mem_cons.mp hw
    cases w with
    | nil =>
      rw [List.singleton_append, words_cons, if_neg (by simp [hd]), words_blank hc]
      cases words s with
      | nil => rfl
      | cons v vs => exact if_pos hc
    | cons e w => exact words_grow hd (List.forall_mem_cons.mp hw).1 (ih (by simp) hw)

theorem words_last {w : List Char} (hne : w ≠ []) (hw : ∀ d ∈ w, isBlank d = false) : words w = [w] := by
  induction w with
  | nil => exact absurd rfl hne
  | cons d w ih =>
    obtain ⟨hd, hw⟩ := List.forall_mem_cons.mp hw
    cases w with
    | nil =>
      rw [words_cons, if_neg (by simp [hd])]
      rfl
    | cons e w => exact words_grow hd (List.forall_mem_cons.mp hw).1 (ih (by simp) hw)

/-! Lists with commas -/

theorem split_eq_splitOn (c : Char) (s : List Char) : split c s = s.splitOn c := by
  induction s with
  | nil => rfl
  | cons d s ih =>
    rw [split, ih, List.splitOn_cons_eq_if_modifyHead]
    cases h : s.splitOn c with
    | nil => exact absurd h (List.splitOn_ne_nil c s)
    | cons p ps => simp

theorem not_mem_split : ∀ p ∈ split c s, c ∉ p := by
  induction s with
  | nil => simp [split]
  | cons d s ih =>
    rw [split_eq_splitOn, List.splitOn_cons_eq_if_modifyHead, ← split_eq_splitOn]
    split
    · exact List.forall_mem_cons.mpr ⟨List.not_mem_nil, ih⟩
    · rename_i hd
      cases h : split c s with
      | nil => simp
      | cons p ps =>
        obtain ⟨hp, hps⟩ := List.forall_mem_cons.mp (h ▸ ih)
        refine List.forall_mem_cons.mpr ⟨fun hm => ?_, hps⟩
        rcases List.mem_cons.mp hm with rfl | hm
        · exact hd BEq.rfl
        · exact hp hm

theorem exists_pieces (s : String) :
    ∃ pieces ≠ [], (∀ p ∈ pieces, ',' ∉ p) ∧ [','].intercalate pieces = s.toList :=
  ⟨split ',' s.toList, split_eq_splitOn ',' s.toList ▸ List.splitOn_ne_nil ',' s.toList, not_mem_split,
    split_eq_splitOn ',' s.toList ▸ List.intercalate_splitOn ','⟩

/-- A list has the pieces in their order, each without the blanks at its ends, if anything is left of it then. -/
theorem commaList_pieces {s : String} {pieces : List (List Char)} (hne : pieces ≠ [])
    (hp : ∀ p ∈ pieces, ',' ∉ p) (hs : [','].intercalate pieces = s.toList) :
    commaList s = ((pieces.map trim).filter (· ≠ [])).map String.ofList := by
  rw [commaList, ← hs, split_eq_splitOn, List.splitOn_intercalate ',' hp hne]

/-! Lines -/

theorem lines_append (s : List Char) (hn : '\n' ∉ l) (hr : l.getLast? ≠ some '\r') :
    lines (l ++ '\n' :: s) = l :: lines s := by
  induction l with
  | nil => rw [List.nil_append, lines]
  | cons c l ih =>
    obtain ⟨hc, hrest⟩ := not_or.mp (mt List.mem_cons.mpr hn)
    have hl : l.getLast? ≠ some '\r' := by
      intro h
      exact hr (by rw [List.getLast?_cons, h]; rfl)
    rw [List.cons_append, lines, ih hrest hl]
    · exact fun h => hc h.symm
    · rintro rest rfl h
      cases l with
      | nil => simp at hr
      | cons d l =>
        obtain rfl := (List.cons.inj h).1
        exact hrest List.mem_cons_self

theorem blank_return : ∀ d ∈ ['\r'], isBlank d = true := List.forall_mem_singleton.mpr rfl

theorem lines_ended (s : List Char) (hn : '\n' ∉ l) :
    ∃ m, lines (l ++ '\n' :: s) = m :: lines s ∧ trim m = trim l := by
  by_cases hr : l.getLast? = some '\r'
  · obtain ⟨m, rfl⟩ := List.getLast?_eq_some_iff.mp hr
    refine ⟨m, ?_, (trim_append_blanks m blank_return).symm⟩
    induction m with
    | nil => rfl
    | cons c m ih =>
      obtain ⟨hc, hrest⟩ := not_or.mp (mt List.mem_cons.mpr hn)
      have follows : (m ++ ['\r'] ++ '\n' :: s).head? ≠ some '\n' := by
        cases m with
        | nil => simp
        | cons d m =>
          intro h
          obtain rfl := Option.some.inj h
          exact hrest List.mem_cons_self
      rw [List.cons_append, List.cons_append, lines, ih hrest (by simp)]
      · exact fun h => hc h.symm
      · rintro rest - h
        exact follows (by rw [h]; rfl)
  · exact ⟨l, lines_append s hn hr, rfl⟩

theorem lines_single (hn : '\n' ∉ l) : lines l = [] ∧ l = [] ∨ lines l = [l] := by
  induction l with
  | nil => exact .inl ⟨rfl, rfl⟩
  | cons c l ih =>
    obtain ⟨hc, hrest⟩ := not_or.mp (mt List.mem_cons.mpr hn)
    right
    rw [lines]
    · obtain ⟨hl, rfl⟩ | hl := ih hrest
      · rfl
      · rw [hl]
    · exact fun h => hc h.symm
    · rintro rest - rfl
      exact hrest List.mem_cons_self

theorem lines_flatMap {ls : List (List Char)} (h : ∀ l ∈ ls, '\n' ∉ l ∧ l.getLast? ≠ some '\r') :
    lines (ls.flatMap (· ++ ['\n'])) = ls := by
  induction ls with
  | nil => rfl
  | cons l ls ih =>
    obtain ⟨⟨hn, hr⟩, hls⟩ := List.forall_mem_cons.mp h
    rw [List.flatMap_cons, List.append_assoc, List.singleton_append, lines_append _ hn hr, ih hls]

end ScrapeRelay.Text

import ScrapeRelay.Json.Reader
import ScrapeRelay.Json.Writer
import ScrapeRelay.Proofs.Decimal.ReadBack

/-!
Numbers of JSON texts. However the digits of a finite number are laid out, they have the parts of a numeral, and
the numeral is read as this number.
-/

namespace ScrapeRelay

namespace Json

open Decimal (Behind Digits isDigit)

variable {s rest whole fraction exponent : List Char} {c : Char}

/-- The parts of a numeral: no zero leads a longer whole part, and digits stand behind a point or an exponent
sign. -/
structure Parts (whole fraction exponent : List Char) : Prop where
  digits : Digits whole
  leading : ∃ c, whole.head? = some c ∧ (c = '0' → whole.length = 1)
  fraction : fraction = [] ∨ ∃ ds, fraction = '.' :: ds ∧ Digits ds ∧ ds ≠ []
  exponent : exponent = [] ∨ ∃ sign ds, exponent = 'e' :: sign :: ds ∧ (sign = '-' ∨ sign = '+') ∧
    Digits ds ∧ ds ≠ []

def Ends (s : List Char) : Prop := ∀ c, s.head? = some c → c = ',' ∨ c = ']' ∨ c = '\x7d'

theorem Ends.behind (h : Ends s) : Behind s := by
  intro c hc
  obtain rfl | rfl | rfl := h c hc <;> rfl

theorem fraction?_behind (h : s.head? ≠ some '.') : fraction? s = some ([], s) := by
  rw [fraction?]
  rintro t rfl
  exact h rfl

theorem fraction?_digits {ds : List Char} (hd : Digits ds) (hne : ds ≠ []) (hs : Behind s) :
    fraction? ('.' :: (ds ++ s)) = some ('.' :: ds, s) := by
  rw [fraction?, Text.takeWhile_run hd hs, Text.dropWhile_run hd hs]
  simp [hne]

theorem exponent?_ends (h : Ends s) : exponent? s = some ([], s) := by
  unfold exponent?
  split
  · rfl
  · rename_i c s
    have hc : ¬(c = 'e' ∨ c = 'E') := by
      rintro (rfl | rfl) <;> exact absurd (h _ rfl) (by decide)
    rw [if_neg hc]

theorem exponent?_digits {sign : Char} {ds : List Char} (hsign : sign = '-' ∨ sign = '+') (hd : Digits ds)
    (hne : ds ≠ [])
    (hs : Behind s) : exponent? ('e' :: sign :: (ds ++ s)) = some ('e' :: sign :: ds, s) := by
  have hp : plusOrMinus (sign :: (ds ++ s)) = ([sign], ds ++ s) := by
    rcases hsign with rfl | rfl <;> rfl
  rw [exponent?, if_pos (.inl rfl), hp]
  simp [Text.takeWhile_run hd hs, Text.dropWhile_run hd hs, hne]

theorem minus_digit (h : isDigit c = true) (s : List Char) : minus (c :: s) = ([], c :: s) := by
  rw [minus]
  rintro t ⟨rfl, -⟩
  cases h

theorem numeral?_parts {sign : List Char} (hs : sign = [] ∨ sign = ['-']) (h : Parts whole fraction exponent)
    (hr : Ends rest) : numeral? (sign ++ (whole ++ (fraction ++ (exponent ++ rest)))) =
      some (fraction.isEmpty && exponent.isEmpty, sign ++ whole ++ fraction ++ exponent, rest) := by
  obtain ⟨hd, ⟨c, hc, hlead⟩, hf, he⟩ := h
  obtain ⟨ws, rfl⟩ := List.head?_eq_some_iff.mp hc
  have point : Behind (exponent ++ rest) ∧ (exponent ++ rest).head? ≠ some '.' ∧
      exponent? (exponent ++ rest) = some (exponent, rest) := by
    rcases he with rfl | ⟨sign, ds, rfl, hsign, hds, hne⟩
    · refine ⟨hr.behind, fun hdot => ?_, exponent?_ends hr⟩
      exact absurd (hr _ hdot) (by decide)
    · refine ⟨?_, by simp, exponent?_digits hsign hds hne hr.behind⟩
      rintro _ ⟨⟩
      rfl
  have tail : Behind (fraction ++ (exponent ++ rest)) ∧
      fraction? (fraction ++ (exponent ++ rest)) = some (fraction, exponent ++ rest) := by
    rcases hf with rfl | ⟨ds, rfl, hds, hne⟩
    · exact ⟨point.1, fraction?_behind point.2.1⟩
    · refine ⟨?_, fraction?_digits hds hne point.1⟩
      rintro _ ⟨⟩
      rfl
  have split : minus (sign ++ (c :: ws ++ (fraction ++ (exponent ++ rest)))) =
      (sign, c :: ws ++ (fraction ++ (exponent ++ rest))) := by
    rcases hs with rfl | rfl
    · exact minus_digit (hd c List.mem_cons_self) _
    · rfl
  rw [numeral?, split]
  simp only [Text.takeWhile_run hd tail.1, Text.dropWhile_run hd tail.1, tail.2, point.2.2, Option.bind_eq_bind,
    Option.bind_some]
  rw [if_neg]
  simpa using hlead

end Json

namespace Decimal

open Json (Parts)

variable {s ds : List Char} {n : ℕ} {x : Float}

def Arranged (pointed : Bool) (s : List Char) : Prop :=
  ∃ whole fraction exponent, s = whole ++ (fraction ++ exponent) ∧ Parts whole fraction exponent ∧
    (pointed = true → (fraction.isEmpty && exponent.isEmpty) = false)

def Leading (ds : List Char) : Prop := Digits ds ∧ ∃ c, ds.head? = some c ∧ c ≠ '0'

theorem numeral_leading (hn : 0 < n) : Leading (numeral n) := by
  refine ⟨digits_numeral n, ?_⟩
  induction n using Nat.strong_induction_on with
  | _ n ih =>
    rcases Nat.lt_or_ge n 10 with h | h
    · have lead : ∀ n < 10, 0 < n → n.digitChar ≠ '0' := by decide
      exact ⟨n.digitChar, by rw [numeral, Nat.toDigits_of_lt_base h]; rfl, lead n h hn⟩
    -- A last digit leaves the first one as it is.
    · obtain ⟨c, hc, hz⟩ := ih (n / 10) (by omega) (by omega)
      refine ⟨c, ?_, hz⟩
      change (Nat.toDigits 10 (n / 10)).head? = _ at hc
      rw [numeral, Nat.toDigits_of_base_le (by decide) h, List.head?_append, hc]
      rfl

theorem Leading.dropTrailing (h : Leading s) : Leading (dropTrailing s) := by
  obtain ⟨hs, c, hc, hz⟩ := h
  obtain ⟨k, hk⟩ := dropTrailing_append s
  refine ⟨fun d hd => hs d (hk ▸ List.mem_append_left _ hd), c, ?_, hz⟩
  rw [← hk, List.head?_append] at hc
  cases hd : (Decimal.dropTrailing s).head? with
  | some d => rw [hd] at hc; exact hc
  | none =>
    rw [hd, Option.none_or] at hc
    exact absurd (List.eq_of_mem_replicate (List.mem_of_mem_head? hc)) hz

theorem Leading.ne_nil (h : Leading ds) : ds ≠ [] := by
  obtain ⟨-, c, hc, -⟩ := h
  rintro rfl
  cases hc

theorem Leading.append (h : Leading ds) {t : List Char} (ht : Digits t) : Leading (ds ++ t) := by
  obtain ⟨hd, c, hc, hz⟩ := h
  exact ⟨hd.append ht, c, by rw [List.head?_append, hc]; rfl, hz⟩

theorem Leading.take (h : Leading ds) (hn : 0 < n) : Leading (ds.take n) := by
  obtain ⟨hd, c, hc, hz⟩ := h
  refine ⟨hd.take n, c, ?_, hz⟩
  rw [List.head?_take, if_neg hn.ne', hc]

theorem Leading.whole (h : Leading ds) : Parts ds [] [] := by
  obtain ⟨hd, c, hc, hz⟩ := h
  exact ⟨hd, ⟨c, hc, fun h => absurd h hz⟩, .inl rfl, .inl rfl⟩

theorem zero_whole : Parts ['0'] [] [] := ⟨digits_zero, ⟨'0', rfl, fun _ => rfl⟩, .inl rfl, .inl rfl⟩

theorem arranged_fraction (h : Parts s [] []) (hd : Digits ds) (hne : ds ≠ []) (pointed : Bool) :
    Arranged pointed (s ++ '.' :: ds) :=
  ⟨s, '.' :: ds, [], by simp, ⟨h.digits, h.leading, .inr ⟨ds, rfl, hd, hne⟩, .inl rfl⟩, fun _ => rfl⟩

theorem positional_arranged (l : Layout) (h : Leading ds) (point : ℤ) :
    Arranged l.pointed (l.positional ds point) := by
  rw [Layout.positional]
  split
  · exact arranged_fraction zero_whole ((digits_zeros _).append h.1)
      (List.append_ne_nil_of_right_ne_nil _ h.ne_nil) _
  · dsimp only
    split
    · have hw := (h.append (digits_zeros (point.natAbs - ds.length))).whole
      cases l.pointed with
      | true => exact arranged_fraction hw digits_zero (by simp) true
      | false => exact ⟨_, [], [], rfl, hw, by simp⟩
    · refine arranged_fraction (h.take (by omega)).whole (h.1.drop _) ?_ _
      simp
      omega

theorem scientific_arranged (h : Leading ds) (point : ℤ) (pointed : Bool) :
    Arranged pointed (Layout.scientific ds point) := by
  have power (e : ℤ) : ∃ sign, ((if e < 0 then '-' else '+') = sign) ∧ (sign = '-' ∨ sign = '+') := by
    split
    · exact ⟨_, rfl, .inl rfl⟩
    · exact ⟨_, rfl, .inr rfl⟩
  obtain ⟨sign, hs, hsign⟩ := power (point - 1)
  have exponent : 'e' :: sign :: numeral (point - 1).natAbs = [] ∨ ∃ sign' ds,
      'e' :: sign :: numeral (point - 1).natAbs = 'e' :: sign' :: ds ∧ (sign' = '-' ∨ sign' = '+') ∧
      Digits ds ∧ ds ≠ [] :=
    .inr ⟨sign, _, rfl, hsign, digits_numeral _, Nat.toDigits_ne_nil⟩
  match ds, h with
  | [], h => exact absurd rfl h.ne_nil
  | [d], h =>
    rw [Layout.scientific, hs]
    exact ⟨[d], [], _, rfl, ⟨h.1, h.whole.leading, .inl rfl, exponent⟩, fun _ => rfl⟩
  | d :: d' :: rest, h =>
    have hd := (h.take (n := 1) (by decide)).whole
    have text : Layout.scientific (d :: d' :: rest) point =
        d :: '.' :: d' :: rest ++ 'e' :: (if point - 1 < 0 then '-' else '+') :: numeral (point - 1).natAbs := rfl
    rw [text, hs]
    refine ⟨[d], '.' :: d' :: rest, _, rfl,
      ⟨hd.digits, hd.leading, .inr ⟨d' :: rest, rfl, ?_⟩, exponent⟩, fun _ => rfl⟩
    exact ⟨h.1.drop 1, List.cons_ne_nil _ _⟩

theorem magnitude_arranged (l : Layout) (h : x.isFinite = true) (hn : isNegative x = false) :
    Arranged l.pointed (l.magnitude x) := by
  rcases unsigned_cases h hn with hx | ⟨m, q, hm, hx⟩
  · have hz : x = 0 := (eq_of_unpack (hx ▸ rfl)).symm
    have hzero : ((0 : Float) == 0) = true := by decide +kernel
    rw [hz, Layout.magnitude, hzero]
    cases l.pointed with
    | true => exact arranged_fraction zero_whole digits_zero (by simp) true
    | false => exact ⟨['0'], [], [], rfl, zero_whole, by simp⟩
  · have hlead := (numeral_leading (shortest_pos l.tie hx)).dropTrailing
    rw [Layout.magnitude, finite_ne_zero hx, if_neg Bool.false_ne_true]
    dsimp only
    split
    · exact positional_arranged l hlead _
    · exact scientific_arranged hlead _ _

theorem render_arranged (l : Layout) (h : x.isFinite = true) :
    ∃ sign s, l.render x = sign ++ s ∧ (sign = [] ∨ sign = ['-']) ∧ Arranged l.pointed s := by
  rw [Layout.render]
  cases hn : isNegative x with
  | false => exact ⟨[], _, rfl, .inl rfl, magnitude_arranged l h hn⟩
  | true => exact ⟨['-'], _, rfl, .inr rfl, magnitude_arranged l (isFinite_neg h) (isNegative_neg h hn)⟩

end Decimal

namespace Json

open Decimal (isDigit)

variable {rest : List Char} {c : Char} {n : Number}

inductive Number.Readable : Number → Prop
  | int {n : ℤ} (low : -0x8000000000000000 ≤ n) (high : n < 0x10000000000000000) : Readable (.int n)
  | real {x : Float} (h : x.isFinite = true) : Readable (.real x)

theorem numeral_whole (n : ℕ) : Parts (Decimal.numeral n) [] [] := by
  rcases Nat.eq_zero_or_pos n with rfl | hn
  · exact Decimal.zero_whole
  · exact (Decimal.numeral_leading hn).whole

theorem writeInt_numeral? (n : ℤ) (hr : Ends rest) :
    numeral? (writeInt n ++ rest) = some (true, writeInt n, rest) := by
  rw [writeInt]
  split
  · have h := numeral?_parts (.inr rfl) (numeral_whole n.natAbs) hr
    simpa using h
  · have h := numeral?_parts (.inl rfl) (numeral_whole n.natAbs) hr
    simpa using h

theorem read?_numeral (n : ℕ) : Decimal.read? (Decimal.numeral n) = some ⟨false, n, 0⟩ := by
  have h := Decimal.read?_whole (Decimal.digits_numeral n) Nat.toDigits_ne_nil Decimal.behind_nil (by simp)
    Decimal.no_exponent
  rwa [List.append_nil, Decimal.value_numeral] at h

theorem ofNumeral?_writeInt {n : ℤ} (low : -0x8000000000000000 ≤ n) (high : n < 0x10000000000000000) :
    ofNumeral? true (writeInt n) = some (.int n) := by
  have read : Decimal.read? (writeInt n) = some ⟨decide (n < 0), n.natAbs, 0⟩ := by
    rw [writeInt]
    split
    · rename_i hn
      obtain ⟨c, hc, -⟩ := (numeral_whole n.natAbs).leading
      rw [Decimal.read?_negative ⟨c, hc, (numeral_whole n.natAbs).digits c (List.mem_of_mem_head? hc)⟩,
        read?_numeral]
      simp [hn]
    · rename_i hn
      rw [read?_numeral]
      simp [hn]
  have value : (if n < 0 then -(n.natAbs : ℤ) else n.natAbs) = n := by
    split <;> omega
  rw [ofNumeral?, read]
  simp only [Option.bind_eq_bind, Option.bind_some, decide_eq_true_eq, value]
  rw [if_pos ⟨trivial, low, high, by omega⟩]

theorem number_reads (h : n.Readable) (hr : Ends rest) : ∃ whole,
    numeral? (writeNumber n ++ rest) = some (whole, writeNumber n, rest) ∧
      ofNumeral? whole (writeNumber n) = some n := by
  cases h with
  | int low high => exact ⟨true, writeInt_numeral? _ hr, ofNumeral?_writeInt low high⟩
  | @real x hx =>
    obtain ⟨sign, s, hs, hsign, whole, fraction, exponent, rfl, hp, hpoint⟩ :=
      Decimal.render_arranged realLayout hx
    obtain ⟨d, hd, hv⟩ := Decimal.read?_render realLayout hx
    refine ⟨false, ?_, ?_⟩
    · have h := numeral?_parts hsign hp hr
      rw [hpoint rfl] at h
      simpa [writeNumber, hs] using h
    · rw [ofNumeral?, writeNumber, hd]
      simp [hv, hx]

theorem opens_numeral {sign whole fraction exponent : List Char} (hs : sign = [] ∨ sign = ['-'])
    (h : Parts whole fraction exponent) : ∃ c t, sign ++ (whole ++ (fraction ++ exponent)) = c :: t ∧
      (c = '-' ∨ isDigit c = true) := by
  obtain ⟨c, hc, -⟩ := h.leading
  obtain ⟨t, rfl⟩ := List.head?_eq_some_iff.mp hc
  rcases hs with rfl | rfl
  · exact ⟨c, _, rfl, .inr (h.digits c List.mem_cons_self)⟩
  · exact ⟨'-', _, rfl, .inl rfl⟩

theorem writeNumber_opens (h : n.Readable) :
    ∃ c t, writeNumber n = c :: t ∧ (c = '-' ∨ isDigit c = true) := by
  cases h with
  | @int n low high =>
    rw [writeNumber, writeInt]
    split
    · exact ⟨'-', _, rfl, .inl rfl⟩
    · simpa using opens_numeral (.inl rfl) (numeral_whole n.natAbs)
  | @real x hx =>
    obtain ⟨sign, s, hs, hsign, whole, fraction, exponent, rfl, hp, -⟩ := Decimal.render_arranged realLayout hx
    rw [writeNumber, hs]
    exact opens_numeral hsign hp

theorem number_char (h : c = '-' ∨ isDigit c = true) : isSpace c = false ∧
    ∀ d ∈ ['n', 't', 'f', '"', '[', ']', '\x7b'], c ≠ d := by
  have others : ∀ d ∈ [' ', '\n', '\r', '\t', 'n', 't', 'f', '"', '[', ']', '\x7b'],
      ¬(d = '-' ∨ isDigit d = true) := by
    simp [isDigit]
  have distinct : ∀ d ∈ [' ', '\n', '\r', '\t', 'n', 't', 'f', '"', '[', ']', '\x7b'], c ≠ d :=
    fun d hd hc => others d hd (hc ▸ h)
  simp only [List.forall_mem_cons] at distinct ⊢
  simp_all [isSpace]

end Json

end ScrapeRelay

import ScrapeRelay.Exposition.Number
import ScrapeRelay.Proofs.Decimal.Nearest
import ScrapeRelay.Proofs.Text

/-!
A finite number is read back from its text, however its digits are laid out, and a bound also where it is
infinite.
-/

namespace ScrapeRelay

namespace Decimal

open Float.Model Float.Model.UnpackedFloat

variable {s t ds : List Char} {c : Char} {n : ℕ} {e point : ℤ}

/-! Digits -/

def Digits (s : List Char) : Prop := ∀ c ∈ s, isDigit c = true

theorem Digits.append (hs : Digits s) (ht : Digits t) : Digits (s ++ t) := by
  intro c hc
  exact (List.mem_append.mp hc).elim (hs c) (ht c)

theorem Digits.take (hs : Digits s) (n : ℕ) : Digits (s.take n) := fun c hc => hs c (List.mem_of_mem_take hc)

theorem Digits.drop (hs : Digits s) (n : ℕ) : Digits (s.drop n) := fun c hc => hs c (List.mem_of_mem_drop hc)

theorem digits_zeros (n : ℕ) : Digits (zeros n) := by
  intro c hc
  rw [List.eq_of_mem_replicate hc]
  rfl

theorem digits_numeral (n : ℕ) : Digits (numeral n) := by
  intro c hc
  have := Nat.isDigit_of_mem_toDigits (by decide) (by decide) hc
  simpa [Char.isDigit, isDigit, Char.le_def] using this

theorem value_eq (s : List Char) : value s = Nat.ofDigitChars 10 s 0 := Nat.ofDigitChars_eq_foldl.symm

theorem value_append (s t : List Char) : value (s ++ t) = value s * 10 ^ t.length + value t := by
  simp only [value_eq, Nat.ofDigitChars_append]
  rw [Nat.ofDigitChars_eq_ofDigitChars_zero, Nat.mul_comm]

theorem value_zeros (n : ℕ) : value (zeros n) = 0 := by simp [value_eq, zeros]

theorem value_numeral (n : ℕ) : value (numeral n) = n := by simp [value_eq, numeral]

theorem dropTrailing_append (s : List Char) : ∃ k, dropTrailing s ++ zeros k = s := by
  refine ⟨(s.reverse.takeWhile (· == '0')).length, ?_⟩
  have hz : s.reverse.takeWhile (· == '0') = zeros (s.reverse.takeWhile (· == '0')).length := by
    apply List.eq_replicate_of_mem
    intro c hc
    simpa using List.mem_takeWhile_imp hc
  apply List.reverse_injective
  rw [List.reverse_append, zeros, List.reverse_replicate, dropTrailing, List.reverse_reverse]
  rw [zeros] at hz
  rw [← hz, List.takeWhile_append_dropWhile]

/-! Reading digits -/

theorem splitSign_digit (h : isDigit c = true) (s : List Char) : splitSign (c :: s) = (false, c :: s) := by
  unfold splitSign
  split
  · rename_i heq
    obtain ⟨rfl, -⟩ := List.cons.inj heq
    cases h
  · rename_i heq
    obtain ⟨rfl, -⟩ := List.cons.inj heq
    cases h
  · rfl

/-- A text behind the digits of a number. -/
def Behind (s : List Char) : Prop := ∀ c, s.head? = some c → isDigit c = false

theorem splitSign_digits (hs : Digits s) (hne : s ≠ []) (t : List Char) :
    splitSign (s ++ t) = (false, s ++ t) := by
  obtain ⟨c, s, rfl⟩ := List.exists_cons_of_ne_nil hne
  exact splitSign_digit (hs c List.mem_cons_self) _

theorem read?_whole (hs : Digits s) (hne : s ≠ []) (ht : Behind t) (hdot : t.head? ≠ some '.')
    (he : readExponent? t = some e) : read? (s ++ t) = some ⟨false, value s, e⟩ := by
  have hempty : s.isEmpty = false := by simpa using hne
  rw [read?, splitSign_digits hs hne]
  simp only [Text.takeWhile_run hs ht, Text.dropWhile_run hs ht]
  split
  · simp at hdot
  · simp [hempty, he]

theorem read?_pointed (hs : Digits s) (hne : s ≠ []) (ht : Digits t) {u : List Char} (hu : Behind u)
    (he : readExponent? u = some e) :
    read? (s ++ '.' :: (t ++ u)) = some ⟨false, value (s ++ t), e - t.length⟩ := by
  have hdot : Behind ('.' :: (t ++ u)) := by
    intro c hc
    cases hc
    rfl
  have hempty : s.isEmpty = false := by simpa using hne
  rw [read?, splitSign_digits hs hne]
  simp only [Text.takeWhile_run hs hdot, Text.dropWhile_run hs hdot, Text.takeWhile_run ht hu,
    Text.dropWhile_run ht hu]
  simp [hempty, he]

structure Spells (s : List Char) (v : ℚ) : Prop where
  head : ∃ c, s.head? = some c ∧ isDigit c = true
  reads : ∃ d, read? s = some d ∧ d.negative = false ∧ (d.digits * 10 ^ d.exponent : ℚ) = v

theorem head_digits (hs : Digits s) (hne : s ≠ []) (t : List Char) :
    ∃ c, (s ++ t).head? = some c ∧ isDigit c = true := by
  obtain ⟨c, s, rfl⟩ := List.exists_cons_of_ne_nil hne
  exact ⟨c, rfl, hs c List.mem_cons_self⟩

theorem spells_whole (hs : Digits s) (hne : s ≠ []) (ht : Behind t) (hdot : t.head? ≠ some '.')
    (he : readExponent? t = some e) : Spells (s ++ t) (value s * 10 ^ e) :=
  ⟨head_digits hs hne t, _, read?_whole hs hne ht hdot he, rfl, rfl⟩

theorem spells_pointed (hs : Digits s) (hne : s ≠ []) (ht : Digits t) {u : List Char} (hu : Behind u)
    (he : readExponent? u = some e) : Spells (s ++ '.' :: (t ++ u)) (value (s ++ t) * 10 ^ (e - t.length)) :=
  ⟨head_digits hs hne _, _, read?_pointed hs hne ht hu he, rfl, rfl⟩

theorem behind_nil : Behind [] := by simp [Behind]

/-! Layouts -/

theorem zpow_shift {a b : ℕ} {i j : ℤ} {k : ℕ} (h : a = b * 10 ^ k) (hi : i = j - k) :
    (a * 10 ^ i : ℚ) = b * 10 ^ j := by
  rw [h, hi, zpow_sub₀ (by norm_num), zpow_natCast]
  push_cast
  field_simp

theorem digits_zero : Digits ['0'] := digits_zeros 1

theorem zeros_length (n : ℕ) : (zeros n).length = n := List.length_replicate

theorem value_zero : value ['0'] = 0 := rfl

theorem no_exponent : readExponent? [] = some 0 := rfl

theorem spells_below (hs : Digits ds) (k : ℕ) :
    Spells ('0' :: '.' :: zeros k ++ ds) (value ds * 10 ^ (-k - ds.length : ℤ)) := by
  have h := spells_pointed digits_zero (by simp) ((digits_zeros k).append hs) behind_nil no_exponent
  have hv : value (['0'] ++ (zeros k ++ ds)) = value ds := by
    rw [value_append, value_append, value_zeros, value_zero]
    omega
  have he : (0 : ℤ) - (zeros k ++ ds).length = -k - ds.length := by
    rw [List.length_append, zeros_length]
    omega
  rw [List.append_nil, hv, he] at h
  simpa using h

theorem spells_beyond (hs : Digits ds) (hne : ds ≠ []) {k : ℕ} (h : ds.length ≤ k) (pointed : Bool) :
    Spells (ds ++ zeros (k - ds.length) ++ (if pointed then ['.', '0'] else []))
      (value ds * 10 ^ (k - ds.length : ℤ)) := by
  obtain ⟨n, rfl⟩ := Nat.exists_eq_add_of_le h
  have hds := hs.append (digits_zeros n)
  have hne' : ds ++ zeros n ≠ [] := List.append_ne_nil_of_left_ne_nil hne _
  have hv : value (ds ++ zeros n) = value ds * 10 ^ n := by
    rw [value_append, value_zeros, zeros_length, Nat.add_zero]
  have hv' : value (ds ++ zeros n ++ ['0']) = value ds * 10 ^ (n + 1) := by
    rw [value_append, hv, value_zero, Nat.add_zero, pow_succ, mul_assoc]
    rfl
  rw [Nat.add_sub_cancel_left]
  cases pointed with
  | false =>
    rw [← zpow_shift (i := 0) hv (by push_cast; ring)]
    exact spells_whole hds hne' behind_nil (by simp) no_exponent
  | true =>
    rw [← zpow_shift (i := 0 - 1) hv' (by push_cast; ring)]
    exact spells_pointed hds hne' digits_zero behind_nil no_exponent

theorem spells_within (hs : Digits ds) {k : ℕ} (hk : 0 < k) (h : k < ds.length) :
    Spells (ds.take k ++ '.' :: ds.drop k) (value ds * 10 ^ (k - ds.length : ℤ)) := by
  have htake : ds.take k ≠ [] := by
    rw [← List.length_pos_iff, List.length_take]
    omega
  have he : (0 : ℤ) - (ds.drop k).length = k - ds.length := by
    rw [List.length_drop]
    omega
  have h := spells_pointed (hs.take k) htake (hs.drop k) behind_nil no_exponent
  rwa [List.append_nil, List.take_append_drop, he] at h

theorem positional_spells (l : Layout) (hs : Digits ds) (hne : ds ≠ []) (point : ℤ) :
    Spells (l.positional ds point) (value ds * 10 ^ (point - ds.length)) := by
  rw [Layout.positional]
  split
  · obtain ⟨k, rfl⟩ : ∃ k : ℕ, point = -k := ⟨point.natAbs, by omega⟩
    rw [Int.natAbs_neg]
    exact spells_below hs k
  · obtain ⟨k, rfl⟩ : ∃ k : ℕ, point = k := ⟨point.natAbs, by omega⟩
    simp only [Int.natAbs_natCast]
    split
    · rename_i hlen
      exact spells_beyond hs hne hlen l.pointed
    · rename_i hpos hlen
      exact spells_within hs (by omega) (by omega)

theorem readExponent?_signed (e : ℤ) :
    readExponent? ('e' :: (if e < 0 then '-' else '+') :: numeral e.natAbs) = some e := by
  have hne (n : ℕ) : (numeral n).isEmpty = false := List.isEmpty_eq_false_iff.mpr Nat.toDigits_ne_nil
  have hall (n : ℕ) : (numeral n).all isDigit = true := List.all_eq_true.mpr (digits_numeral n)
  split
  · obtain ⟨k, rfl⟩ : ∃ k : ℕ, e = -k := ⟨e.natAbs, by omega⟩
    simp [readExponent?, splitSign, hne, hall, value_numeral]
  · obtain ⟨k, rfl⟩ : ∃ k : ℕ, e = k := ⟨e.natAbs, by omega⟩
    simp [readExponent?, splitSign, hne, hall, value_numeral]

theorem scientific_spells (hs : Digits ds) (hne : ds ≠ []) (point : ℤ) :
    Spells (Layout.scientific ds point) (value ds * 10 ^ (point - ds.length)) := by
  have he := readExponent?_signed (point - 1)
  have hbehind : Behind ('e' :: (if point - 1 < 0 then '-' else '+') :: numeral (point - 1).natAbs) := by
    intro c hc
    cases hc
    rfl
  match ds, hne with
  | [d], _ => exact spells_whole hs (by simp) hbehind (by simp) he
  | d :: d' :: rest, _ =>
    obtain ⟨hd, hrest⟩ := List.forall_mem_cons.mp hs
    have h := spells_pointed (s := [d]) (fun c hc => List.mem_singleton.mp hc ▸ hd) (by simp) hrest hbehind he
    have hlen : point - 1 - ((d' :: rest).length : ℤ) = point - (d :: d' :: rest).length := by
      simp only [List.length_cons]
      omega
    rw [hlen] at h
    exact h

/-! Shortest digits -/

variable {x y : Float} {m : ℕ} {q : ℤ} {hm : 0 < m}

theorem binary_of_unpack {s : Sign} (h : x.toModel.unpack = .finite s m q hm) : binary x = (m, q) := by
  have hbits : x.toBits.toNat = x.toModel.toBits.toBitVec.toNat := rfl
  rw [binary, hbits]
  obtain ⟨-, ⟨hz, rfl, rfl⟩ | ⟨hpos, -, rfl, rfl⟩⟩ := unpack_finite h
  · exact if_pos hz
  · rw [Nat.add_comm]
    exact if_neg hpos.ne'

theorem eq_of_beq (hx : x.toModel.unpack = .finite .positive m q hm) (h : (y == x) = true) : y = x := by
  have hb : y.toModel.unpack.beq x.toModel.unpack = true := h
  obtain ⟨-, -, he | ⟨-, hz⟩ | ⟨-, hz⟩⟩ := (beq_iff_ne_notANumber_and_eq _ _).mp hb
  · exact eq_of_unpack he
  · simp [hx] at hz
  · simp [hx] at hz

theorem nearest?_fits {tie : Tie} (h : nearest? tie x m q e = some n) : (magnitude n e == x) = true := by
  rw [nearest?] at h
  generalize scaled m q e = ratio at h
  obtain ⟨num, den⟩ := ratio
  dsimp only at h
  generalize num / den = low at h
  split at h
  · rename_i hlow hhigh
    have taken : n = low ∨ n = low + 1 := by grind
    rcases taken with rfl | rfl
    · exact hlow
    · exact hhigh
  · rename_i hlow _
    exact Option.some.inj h ▸ hlow
  · rename_i _ hhigh
    exact Option.some.inj h ▸ hhigh
  · cases h

theorem exact_reads (hx : x.toModel.unpack = .finite .positive m q hm) :
    magnitude (exact m q).1 (exact m q).2 = x := by
  have hpos : 0 < (exact m q).1 := by
    rw [exact]
    split <;> exact Nat.mul_pos hm (Nat.pow_pos (by decide))
  have hv : ((exact m q).1 * 10 ^ (exact m q).2 : ℚ) = m * 2 ^ q := by
    rw [exact]
    split
    · obtain ⟨k, rfl⟩ : ∃ k : ℕ, q = k := ⟨q.natAbs, by omega⟩
      simp
    · obtain ⟨k, rfl⟩ : ∃ k : ℕ, q = -k := ⟨q.natAbs, by omega⟩
      have hten : (10 : ℚ) ^ k = 2 ^ k * 5 ^ k := by
        rw [← mul_pow]
        norm_num
      simp only [Int.natAbs_neg, Int.natAbs_natCast, Nat.pow_eq, zpow_neg, zpow_natCast, hten]
      push_cast
      field_simp
  rw [magnitude_rounded hpos, hv, rounded_of_unpack hx]

theorem shortest_reads (tie : Tie) (hx : x.toModel.unpack = .finite .positive m q hm) :
    magnitude (shortest tie x).1 (shortest tie x).2 = x := by
  simp only [shortest, binary_of_unpack hx]
  split
  · rename_i found hfound
    obtain ⟨n, -, hn⟩ := List.exists_of_findSome?_eq_some hfound
    obtain ⟨d, hd, rfl⟩ := Option.map_eq_some_iff.mp hn
    exact eq_of_beq hx (nearest?_fits hd)
  · exact exact_reads hx

theorem finite_ne_zero (hx : x.toModel.unpack = .finite .positive m q hm) : (x == 0) = false := by
  change (Float.Model.UnpackedFloat.compare x.toModel.unpack (.zero .positive) == some .eq) = false
  rw [hx]
  rfl

theorem shortest_pos (tie : Tie) (hx : x.toModel.unpack = .finite .positive m q hm) :
    0 < (shortest tie x).1 := by
  apply Nat.pos_of_ne_zero
  intro hz
  have hreads := shortest_reads tie hx
  rw [hz, magnitude, if_pos rfl] at hreads
  rw [← hreads] at hx
  cases hx

/-! Texts of numbers -/

theorem numeral_spells {f : List Char → ℤ → List Char} (hn : 0 < n)
    (hf : ∀ {ds : List Char}, Digits ds → ds ≠ [] →
      ∀ point, Spells (f ds point) (value ds * 10 ^ (point - ds.length)))
    (e : ℤ) : Spells (f (dropTrailing (numeral n)) (e + (numeral n).length)) (n * 10 ^ e) := by
  obtain ⟨k, hk⟩ := dropTrailing_append (numeral n)
  have hlen : (numeral n).length = (dropTrailing (numeral n)).length + k := by
    conv_lhs => rw [← hk, List.length_append, zeros_length]
  have hv : n = value (dropTrailing (numeral n)) * 10 ^ k := by
    conv_lhs => rw [← value_numeral n, ← hk, value_append, value_zeros, zeros_length, Nat.add_zero]
  have hds : Digits (dropTrailing (numeral n)) := by
    intro c hc
    exact digits_numeral n c (hk ▸ List.mem_append_left _ hc)
  have hne : dropTrailing (numeral n) ≠ [] := by
    intro h
    rw [h, show value [] = 0 by rfl] at hv
    omega
  rw [hlen, zpow_shift hv (by omega : e = e + k - k)]
  convert hf hds hne _ using 3
  push_cast
  ring

def ReadAs (s : List Char) (x : Float) : Prop :=
  (∃ c, s.head? = some c ∧ isDigit c = true) ∧
    ∃ d, read? s = some d ∧ d.negative = false ∧ d.toFloat = x

theorem Spells.readAs (h : Spells s (n * 10 ^ e)) : ReadAs s (magnitude n e) := by
  obtain ⟨head, d, hd, hneg, hv⟩ := h
  refine ⟨head, d, hd, hneg, ?_⟩
  rw [toFloat, hneg, if_neg Bool.false_ne_true]
  exact magnitude_congr hv

theorem zero_readAs (l : Layout) : ReadAs (if l.pointed then ['0', '.', '0'] else ['0']) 0 := by
  cases l.pointed with
  | false => exact ⟨⟨'0', rfl, rfl⟩, _, rfl, rfl, rfl⟩
  | true => exact ⟨⟨'0', rfl, rfl⟩, _, rfl, rfl, rfl⟩

theorem magnitude_readAs (l : Layout) (h : x.isFinite = true) (hn : isNegative x = false) :
    ReadAs (l.magnitude x) x := by
  rcases unsigned_cases h hn with hx | ⟨m, q, hm, hx⟩
  · have hz : x = 0 := (eq_of_unpack (hx ▸ rfl)).symm
    have hzero : ((0 : Float) == 0) = true := by decide +kernel
    rw [hz, Layout.magnitude, hzero]
    exact zero_readAs l
  · have hreads := shortest_reads l.tie hx
    have hpos := shortest_pos l.tie hx
    generalize hs : shortest l.tie x = found at hreads hpos
    obtain ⟨n, e⟩ := found
    rw [Layout.magnitude, finite_ne_zero hx, if_neg Bool.false_ne_true, hs, ← hreads]
    dsimp only
    split
    · exact (numeral_spells hpos (positional_spells l) e).readAs
    · exact (numeral_spells hpos scientific_spells e).readAs

theorem read?_negative (h : ∃ c, s.head? = some c ∧ isDigit c = true) :
    read? ('-' :: s) = (read? s).map fun d => { d with negative := true } := by
  obtain ⟨c, hc, hd⟩ := h
  obtain ⟨s, rfl⟩ := List.head?_eq_some_iff.mp hc
  rw [read?, read?, splitSign_digit hd]
  simp only [splitSign]
  split <;> split <;> simp [Option.map_map, Function.comp_def]

theorem read?_render (l : Layout) (h : x.isFinite = true) :
    ∃ d, read? (l.render x) = some d ∧ d.toFloat = x := by
  rw [Layout.render]
  cases hn : isNegative x with
  | false =>
    obtain ⟨-, d, hd, -, hx⟩ := magnitude_readAs l h hn
    exact ⟨d, hd, hx⟩
  | true =>
    obtain ⟨head, d, hd, hpos, hx⟩ := magnitude_readAs l (isFinite_neg h) (isNegative_neg h hn)
    refine ⟨{ d with negative := true }, ?_, ?_⟩
    · rw [if_pos rfl, read?_negative head, hd]
      rfl
    · rw [toFloat, hpos, if_neg Bool.false_ne_true] at hx
      rw [toFloat, if_pos rfl, hx, neg_neg_of_finite h]

theorem isNaN_of_finite (h : x.isFinite = true) : x.isNaN = false := by
  change x.toModel.unpack.isNaN = false
  rcases finite_cases h with ⟨s, hu⟩ | ⟨s, m, e, hm, hu⟩ <;> rw [hu] <;> rfl

theorem isInf_of_finite (h : x.isFinite = true) : x.isInf = false := by
  change x.toModel.unpack.isInf = false
  rcases finite_cases h with ⟨s, hu⟩ | ⟨s, m, e, hm, hu⟩ <;> rw [hu] <;> rfl

theorem number?_spell (positive negative : String) (h : x.isFinite = true) :
    Exposition.number? (digitsOnly.spell positive negative x).toList = some x := by
  have digits : (digitsOnly.spell positive negative x).toList = digitsOnly.render x := by
    rw [Layout.spell, isNaN_of_finite h, isInf_of_finite h]
    simp
  obtain ⟨d, hd, hx⟩ := read?_render digitsOnly h
  have word (w : List Char) (hw : read? w = none) : digitsOnly.render x ≠ w := by
    rintro rfl
    rw [hd] at hw
    cases hw
  rw [digits, Exposition.number?, if_neg (word _ rfl), if_neg (not_or.mpr ⟨word _ rfl, word _ rfl⟩),
    if_neg (word _ rfl), hd, Option.bind_some, hx, if_pos h]

theorem number?_text (h : x.isFinite = true) : Exposition.number? (text x).toList = some x :=
  number?_spell "inf" "-inf" h

end Decimal

/-! Bounds -/

namespace Exposition

theorem boundText_words : boundText infinity = "+Inf" ∧ boundText (-infinity) = "-Inf" ∧
    ∀ x, x.isNaN = true → boundText x = "NaN" := by
  refine ⟨by decide +kernel, by decide +kernel, fun x hx => ?_⟩
  rw [boundText, Decimal.Layout.spell, if_pos hx]

theorem number?_boundText {x : Float} (h : x.isNaN = false) : number? (boundText x).toList = some x := by
  cases hf : x.isFinite with
  | true => exact Decimal.number?_spell "+Inf" "-Inf" hf
  | false =>
    rcases Decimal.unbounded_cases hf with hn | rfl | rfl
    · cases hn.symm.trans h
    · decide +kernel
    · decide +kernel

end Exposition

end ScrapeRelay

import ScrapeRelay.Exposition.Line
import ScrapeRelay.Proofs.Text

/-!
The grammar of sample lines as relations between a text and what it says. Reading accepts exactly the texts of
the grammar, with any blanks that it allows, and gives back the labels as they were before they were escaped.
-/

namespace ScrapeRelay.Exposition

def IsGap (g : List Char) : Prop := ∀ c ∈ g, Sample.isGap c = true

inductive Quoted : List Char → List Char → Prop
  | nil : Quoted [] []
  | plain {c : Char} {w v : List Char} (hq : c ≠ '"') (hb : c ≠ '\\') (h : Quoted w v) :
      Quoted (c :: w) (c :: v)
  | backslash {w v : List Char} (h : Quoted w v) : Quoted ('\\' :: '\\' :: w) ('\\' :: v)
  | quote {w v : List Char} (h : Quoted w v) : Quoted ('\\' :: '"' :: w) ('"' :: v)
  | newline {w v : List Char} (h : Quoted w v) : Quoted ('\\' :: 'n' :: w) ('\n' :: v)

inductive WrittenLabel : List Char → List Char × List Char → Prop
  | mk {name before behind w v : List Char} (hn : isLabelName name = true) (hb : IsGap before) (hg : IsGap behind)
      (hw : Quoted w v) : WrittenLabel (name ++ (before ++ '=' :: (behind ++ '"' :: (w ++ ['"'])))) (name, v)

/-- Labels from behind the opening brace, or from behind a comma, to the closing brace. -/
inductive WrittenLabels : List Char → List (List Char × List Char) → Prop
  | none {g : List Char} (hg : IsGap g) : WrittenLabels (g ++ ['\x7d']) []
  | last {g w g' : List Char} {l : List Char × List Char} (hg : IsGap g) (hl : WrittenLabel w l)
      (hg' : IsGap g') : WrittenLabels (g ++ (w ++ (g' ++ ['\x7d']))) [l]
  | more {g w g' rest : List Char} {l : List Char × List Char} {ls : List (List Char × List Char)} (hg : IsGap g)
      (hl : WrittenLabel w l) (hg' : IsGap g') (hr : WrittenLabels rest ls) :
      WrittenLabels (g ++ (w ++ (g' ++ ',' :: rest))) (l :: ls)

inductive WrittenValue : List Char → Float → Prop
  | plain {token : List Char} {x : Float} (hx : number? token = some x) : WrittenValue token x
  | stamped {token gap stamp : List Char} {x : Float} {n : Int} (hx : number? token = some x) (hg : IsGap gap)
      (hne : gap ≠ []) (hs : Decimal.readInt64? stamp = some n) : WrittenValue (token ++ (gap ++ stamp)) x

def Sample.ofChars (name : List Char) (labels : List (List Char × List Char)) (x : Float) : Sample :=
  ⟨String.ofList name, labels.map fun l => (String.ofList l.1, String.ofList l.2), x⟩

inductive WrittenSample : List Char → Sample → Prop
  | bare {name gap value : List Char} {x : Float} (hn : isMetricName name = true) (hg : IsGap gap)
      (hv : WrittenValue value x) (hne : gap = [] → ∀ c, value.head? = some c → isNameChar c = false) :
      WrittenSample (name ++ (gap ++ value)) (.ofChars name [] x)
  | labelled {name gap w gap' value : List Char} {labels : List (List Char × List Char)} {x : Float}
      (hn : isMetricName name = true) (hg : IsGap gap) (hw : WrittenLabels w labels)
      (hd : (labels.map (·.1)).Nodup) (hg' : IsGap gap') (hv : WrittenValue value x) :
      WrittenSample (name ++ (gap ++ '\x7b' :: (w ++ (gap' ++ value)))) (.ofChars name labels x)

def escape : Char → List Char
  | '\\' => ['\\', '\\']
  | '"' => ['\\', '"']
  | '\n' => ['\\', 'n']
  | c => [c]

def escaped (v : List Char) : List Char := v.flatMap escape

def spelledLabel (l : List Char × List Char) : List Char := l.1 ++ '=' :: '"' :: (escaped l.2 ++ ['"'])

def spelled (name : List Char) (labels : List (List Char × List Char)) (value : List Char) : List Char :=
  name ++ '\x7b' :: ((labels.map spelledLabel).intersperse [',']).flatten ++ '\x7d' :: ' ' :: value

variable {s rest name w v g token : List Char} {c : Char} {x : Float}

theorem isGap_nil : IsGap [] := by simp [IsGap]

theorem isGap_space : IsGap [' '] := by simp [IsGap, Sample.isGap]

theorem IsGap.append (h : IsGap s) (hg : IsGap g) : IsGap (s ++ g) := by
  intro c hc
  exact (List.mem_append.mp hc).elim (h c) (hg c)

theorem isGap_takeWhile (s : List Char) : IsGap (s.takeWhile Sample.isGap) := fun _ hc => List.mem_takeWhile_imp hc

theorem gap_append_skip (s : List Char) : s.takeWhile Sample.isGap ++ Sample.skip s = s :=
  List.takeWhile_append_dropWhile

theorem skip_gap (hg : IsGap g) (hr : ∀ c, rest.head? = some c → Sample.isGap c = false) :
    Sample.skip (g ++ rest) = rest :=
  Text.dropWhile_run hg hr

theorem skip_of_gap (hg : IsGap g) : Sample.skip g = [] := List.dropWhile_eq_nil_iff.mpr hg

theorem skip_eq_self (hr : ∀ c, s.head? = some c → Sample.isGap c = false) : Sample.skip s = s :=
  skip_gap isGap_nil hr

theorem skip_skip (s : List Char) : Sample.skip (Sample.skip s) = Sample.skip s :=
  skip_eq_self fun _ hc => Text.head?_dropWhile_run s hc

theorem isGap_cases (h : Sample.isGap c = true) : c = ' ' ∨ c = '\t' := by
  simpa [Sample.isGap] using h

theorem isNameChar_gap (h : Sample.isGap c = true) : isNameChar c = false ∧ isLabelChar c = false := by
  rcases isGap_cases h with rfl | rfl <;> decide

theorem isGap_of_nameChar (h : isNameChar c = true) : Sample.isGap c = false := by
  cases hg : Sample.isGap c with
  | false => rfl
  | true => simp [(isNameChar_gap hg).1] at h

theorem isNameChar_of_start (h : isNameStart c = true) : isNameChar c = true := by
  simp only [isNameStart, isNameChar, isLabelChar, Bool.or_eq_true] at h ⊢
  exact h.imp_left Or.inl

theorem isLabelChar_of_start (h : isLabelStart c = true) : isLabelChar c = true := by
  simp [isLabelChar, h]

theorem isNameChar_of_labelChar (h : isLabelChar c = true) : isNameChar c = true := by
  simp [isNameChar, h]

/-! Label values -/

theorem push_ok {cs : List Char} (c : Char) : Sample.push c (.ok (cs, rest)) = .ok (c :: cs, rest) := rfl

theorem unescape_quoted (h : Quoted w v) (rest : List Char) :
    Sample.unescape (w ++ '"' :: rest) = .ok (v, rest) := by
  induction h with
  | nil => rfl
  | plain hq hb h ih =>
    rw [List.cons_append, Sample.unescape]
    · rw [ih, push_ok]
    all_goals simp_all
  | backslash h ih | quote h ih | newline h ih =>
    simp only [List.cons_append, Sample.unescape]
    rw [ih, push_ok]

theorem quoted_of_unescape (h : Sample.unescape s = .ok (v, rest)) :
    ∃ w, Quoted w v ∧ s = w ++ '"' :: rest := by
  fun_induction Sample.unescape s generalizing v with
  | case1 => simp at h
  | case2 more =>
    obtain ⟨rfl, rfl⟩ := Prod.mk.inj (Except.ok.inj h)
    exact ⟨[], .nil, rfl⟩
  | case3 more ih =>
    obtain ⟨u, rfl, hu⟩ := Sample.push_eq_ok h
    obtain ⟨w, hw, rfl⟩ := ih hu
    exact ⟨_, .backslash hw, rfl⟩
  | case4 more ih =>
    obtain ⟨u, rfl, hu⟩ := Sample.push_eq_ok h
    obtain ⟨w, hw, rfl⟩ := ih hu
    exact ⟨_, .quote hw, rfl⟩
  | case5 more ih =>
    obtain ⟨u, rfl, hu⟩ := Sample.push_eq_ok h
    obtain ⟨w, hw, rfl⟩ := ih hu
    exact ⟨_, .newline hw, rfl⟩
  | case6 => simp at h
  | case7 => simp at h
  | case8 c more hquote _ _ _ hescape hlone ih =>
    obtain ⟨u, rfl, hu⟩ := Sample.push_eq_ok h
    obtain ⟨w, hw, rfl⟩ := ih hu
    refine ⟨_, .plain hquote ?_ hw, rfl⟩
    rintro rfl
    cases w with
    | nil => exact hescape _ _ rfl rfl
    | cons d w => exact hescape _ _ rfl rfl

theorem escape_plain (hq : c ≠ '"') (hb : c ≠ '\\') (hn : c ≠ '\n') : escape c = [c] := by
  unfold escape
  split <;> first | contradiction | rfl

theorem quoted_escaped (v : List Char) : Quoted (escaped v) v := by
  induction v with
  | nil => exact .nil
  | cons c v ih =>
    rw [escaped, List.flatMap_cons]
    by_cases hq : c = '"'
    · subst hq
      exact .quote ih
    · by_cases hb : c = '\\'
      · subst hb
        exact .backslash ih
      · by_cases hn : c = '\n'
        · subst hn
          exact .newline ih
        · rw [escape_plain hq hb hn]
          exact .plain hq hb ih

/-! Labels -/

theorem isLabelName_iff : isLabelName name = true ↔
    (name.head?.map isLabelStart).getD false = true ∧ ∀ c ∈ name, isLabelChar c = true := by
  cases name with
  | nil => simp [isLabelName]
  | cons c rest =>
    simp only [isLabelName, Bool.and_eq_true, List.all_eq_true, List.head?_cons, Option.map_some, Option.getD_some,
      List.mem_cons, forall_eq_or_imp]
    exact ⟨fun h => ⟨h.1, isLabelChar_of_start h.1, h.2⟩, fun h => ⟨h.1, h.2.2⟩⟩

theorem isMetricName_iff : isMetricName name = true ↔
    (name.head?.map isNameStart).getD false = true ∧ ∀ c ∈ name, isNameChar c = true := by
  cases name with
  | nil => simp [isMetricName]
  | cons c rest =>
    simp only [isMetricName, Bool.and_eq_true, List.all_eq_true, List.head?_cons, Option.map_some,
      Option.getD_some, List.mem_cons, forall_eq_or_imp]
    exact ⟨fun h => ⟨h.1, isNameChar_of_start h.1, h.2⟩, fun h => ⟨h.1, h.2.2⟩⟩

theorem expect_ok (c : Char) (rest : List Char) : Sample.expect c (c :: rest) = .ok rest := by
  simp [Sample.expect]

theorem eq_of_expect (h : Sample.expect c s = .ok rest) : s = c :: rest := by
  cases s with
  | nil => simp [Sample.expect] at h
  | cons d s =>
    simp only [Sample.expect] at h
    split at h
    · rename_i hd
      rw [hd, Except.ok.inj h]
    · simp at h

theorem head?_append_of_ne_nil {t : List Char} (h : name ≠ []) : (name ++ t).head? = name.head? := by
  cases name with
  | nil => exact absurd rfl h
  | cons c rest => rfl

theorem head?_gap {t : List Char} (hg : IsGap g) (h : (g ++ t).head? = some c) :
    Sample.isGap c = true ∨ g = [] ∧ t.head? = some c := by
  cases g with
  | nil => exact .inr ⟨rfl, h⟩
  | cons d g =>
    obtain rfl := Option.some.inj h
    exact .inl (hg d List.mem_cons_self)

theorem pair_written {l : List Char × List Char} (h : WrittenLabel w l) (rest : List Char) :
    Sample.pair (w ++ rest) = .ok (l, rest) := by
  obtain ⟨hn, hb, hg, hw⟩ := h
  rename_i name before behind w v
  obtain ⟨hstart, hchars⟩ := isLabelName_iff.mp hn
  have hne : name ≠ [] := by
    rintro rfl
    simp at hstart
  have hend : ∀ c, (before ++ '=' :: (behind ++ '"' :: (w ++ '"' :: rest))).head? = some c →
      isLabelChar c = false := by
    intro c hc
    rcases head?_gap hb hc with hc | ⟨-, hc⟩
    · exact (isNameChar_gap hc).2
    · obtain rfl := Option.some.inj hc
      decide
  have heq : Sample.skip (before ++ '=' :: (behind ++ '"' :: (w ++ '"' :: rest))) =
      '=' :: (behind ++ '"' :: (w ++ '"' :: rest)) :=
    skip_gap hb (by simp [Sample.isGap])
  have hquote : Sample.skip (behind ++ '"' :: (w ++ '"' :: rest)) = '"' :: (w ++ '"' :: rest) :=
    skip_gap hg (by simp [Sample.isGap])
  simp only [List.append_assoc, List.cons_append, List.nil_append]
  rw [Sample.pair, head?_append_of_ne_nil hne, if_pos hstart, Text.takeWhile_run hchars hend,
    Text.dropWhile_run hchars hend, heq, expect_ok]
  simp only [bind, Except.bind, pure, Except.pure, hquote, expect_ok, unescape_quoted hw]

theorem written_of_pair {l : List Char × List Char} (h : Sample.pair s = .ok (l, rest)) :
    ∃ w, WrittenLabel w l ∧ s = w ++ rest := by
  rw [Sample.pair] at h
  split at h
  · rename_i hstart
    obtain ⟨r₁, h₁, h⟩ := Sample.bind_eq_ok h
    obtain ⟨r₂, h₂, h⟩ := Sample.bind_eq_ok h
    obtain ⟨⟨v, r₃⟩, h₃, h⟩ := Sample.bind_eq_ok h
    obtain ⟨rfl, rfl⟩ := Prod.mk.inj (Except.ok.inj h)
    obtain ⟨w, hw, hr₂⟩ := quoted_of_unescape h₃
    have hname : isLabelName (s.takeWhile isLabelChar) = true := by
      refine isLabelName_iff.mpr ⟨?_, fun c hc => List.mem_takeWhile_imp hc⟩
      cases s with
      | nil => simp at hstart
      | cons c s =>
        have hc : isLabelStart c = true := by simpa using hstart
        simpa [isLabelChar_of_start hc] using hc
    refine ⟨_, .mk hname (isGap_takeWhile (s.dropWhile isLabelChar)) (isGap_takeWhile r₁) hw, ?_⟩
    simp only [List.append_assoc, List.cons_append, List.nil_append]
    rw [← hr₂, ← eq_of_expect h₂, gap_append_skip, ← eq_of_expect h₁, gap_append_skip,
      List.takeWhile_append_dropWhile]
  · simp at h

variable {l : List Char × List Char} {ls seen : List (List Char × List Char)}

theorem WrittenLabel.head (h : WrittenLabel w l) : ∃ c rest, w = c :: rest ∧ isLabelStart c = true := by
  obtain ⟨hn, -, -, -⟩ := h
  rename_i name before behind w v
  cases name with
  | nil => simp [isLabelName] at hn
  | cons c name =>
    simp only [isLabelName, Bool.and_eq_true] at hn
    exact ⟨c, _, rfl, hn.1⟩

theorem isGap_labelStart (h : isLabelStart c = true) : Sample.isGap c = false := by
  apply isGap_of_nameChar
  exact isNameChar_of_labelChar (isLabelChar_of_start h)

theorem skip_label (rest : List Char) (hg : IsGap g) (h : WrittenLabel w l) :
    Sample.skip (g ++ (w ++ rest)) = w ++ rest ∧ (w ++ rest).head? ≠ some '\x7d' := by
  obtain ⟨c, more, rfl, hc⟩ := h.head
  refine ⟨skip_gap hg ?_, ?_⟩
  · rintro d ⟨⟩
    exact isGap_labelStart hc
  · rintro ⟨⟩
    exact absurd hc (by decide)

theorem labelsTo_pair {more : List Char} (hs : (Sample.skip s).head? ≠ some '\x7d')
    (hp : Sample.pair (Sample.skip s) = .ok (l, rest)) (hd : ∀ q ∈ seen, q.1 ≠ l.1)
    (hr : Sample.skip rest = c :: more) :
    Sample.labelsTo seen s =
      if c = ',' then Sample.labelsTo (seen ++ [l]) more
      else if c = '\x7d' then .ok (seen ++ [l], more)
      else .error (.separatorExpected c) := by
  have hfresh : (seen.any fun q => q.1 = l.1) = false := by
    rw [List.any_eq_false]
    simpa using fun a b h => hd (a, b) h
  rw [Sample.labelsTo, if_neg hs]
  split
  · rename_i h
    simp [hp] at h
  · rename_i p r h
    obtain ⟨rfl, rfl⟩ := Prod.mk.inj (Except.ok.inj (hp.symm.trans h))
    rw [if_neg (by simp [hfresh])]
    split
    · rename_i h
      simp [hr] at h
    · rename_i d ds h
      obtain ⟨rfl, rfl⟩ := List.cons.inj (hr.symm.trans h)
      rfl

theorem labelsTo_written (seen : List (List Char × List Char)) (h : WrittenLabels w ls)
    (hd : ((seen ++ ls).map (·.1)).Nodup) (rest : List Char) :
    Sample.labelsTo seen (w ++ rest) = .ok (seen ++ ls, rest) := by
  have fresh {l : List Char × List Char} {seen ls : List (List Char × List Char)}
      (hd : ((seen ++ l :: ls).map (·.1)).Nodup) : ∀ q ∈ seen, q.1 ≠ l.1 := by
    rw [List.map_append, List.map_cons, List.nodup_append] at hd
    exact fun q hq he => hd.2.2 q.1 (List.mem_map_of_mem hq) l.1 List.mem_cons_self he
  have stop (t : List Char) (c : Char) (hc : Sample.isGap c = false) :
      ∀ d, (c :: t).head? = some d → Sample.isGap d = false := by
    rintro d ⟨⟩
    exact hc
  induction h generalizing seen with
  | none hg =>
    have hs := skip_gap hg (stop rest '\x7d' rfl)
    rw [List.append_assoc, List.singleton_append, Sample.labelsTo]
    simp [hs]
  | last hg hl hg' =>
    rename_i g w g' l
    obtain ⟨hs, hhead⟩ := skip_label (g' ++ '\x7d' :: rest) hg hl
    simp only [List.append_assoc, List.cons_append, List.nil_append]
    rw [labelsTo_pair (by rwa [hs]) (by rw [hs, pair_written hl]) (fresh hd) (skip_gap hg' (stop rest '\x7d' rfl))]
    rfl
  | more hg hl hg' hr ih =>
    rename_i g w g' tail l ls
    obtain ⟨hs, hhead⟩ := skip_label (g' ++ ',' :: (tail ++ rest)) hg hl
    simp only [List.append_assoc, List.cons_append]
    rw [labelsTo_pair (by rwa [hs]) (by rw [hs, pair_written hl]) (fresh hd) (skip_gap hg' (stop _ ',' rfl)),
      if_pos rfl, ih _ (by simpa using hd), List.append_assoc, List.singleton_append]

theorem written_of_labelsTo (h : Sample.labelsTo seen s = .ok (ls, rest)) (hd : (seen.map (·.1)).Nodup) :
    ∃ w more, ls = seen ++ more ∧ WrittenLabels w more ∧ s = w ++ rest ∧ (ls.map (·.1)).Nodup := by
  have extend {seen : List (List Char × List Char)} {p : List Char × List Char} (hd : (seen.map (·.1)).Nodup)
      (hn : ¬ (seen.any fun q => q.1 = p.1) = true) : ((seen ++ [p]).map (·.1)).Nodup := by
    rw [List.map_append, List.nodup_append]
    refine ⟨hd, by simp, ?_⟩
    intro a ha b hb he
    obtain ⟨q, hq, rfl⟩ := List.mem_map.mp ha
    exact hn (List.any_eq_true.mpr ⟨q, hq, by simpa [he] using hb⟩)
  fun_induction Sample.labelsTo seen s generalizing ls with
  | case1 seen s hs =>
    obtain ⟨rfl, rfl⟩ := Prod.mk.inj (Except.ok.inj h)
    refine ⟨_, [], (List.append_nil _).symm, .none (isGap_takeWhile s), ?_, hd⟩
    rw [List.append_assoc, List.singleton_append]
    cases hk : Sample.skip s with
    | nil => simp [hk] at hs
    | cons c more =>
      obtain rfl : c = '\x7d' := by simpa [hk] using hs
      rw [List.tail_cons, ← hk, gap_append_skip]
  | case5 seen s hs p r hp hle hn more hr hlen ih =>
    obtain ⟨u, hu, hsu⟩ := written_of_pair hp
    obtain ⟨w, tail, rfl, ht, rfl, hnd⟩ := ih h (extend hd hn)
    refine ⟨_, p :: tail, by simp, .more (isGap_takeWhile s) hu (isGap_takeWhile r) ht, ?_, hnd⟩
    simp only [List.append_assoc, List.cons_append]
    rw [← hr, gap_append_skip, ← hsu, gap_append_skip]
  | case6 seen s hs p r hp hle hn more hr =>
    obtain ⟨u, hu, hsu⟩ := written_of_pair hp
    obtain ⟨rfl, rfl⟩ := Prod.mk.inj (Except.ok.inj h)
    refine ⟨_, [p], rfl, .last (isGap_takeWhile s) hu (isGap_takeWhile r), ?_, extend hd hn⟩
    simp only [List.append_assoc, List.cons_append, List.nil_append]
    rw [← hr, gap_append_skip, ← hsu, gap_append_skip]
  | case2 | case3 | case4 | case7 => simp at h

/-! Values -/

def isPlain (c : Char) : Bool := !Text.isBlank c && c != '\x7b'

theorem isPlain_iff : isPlain c = true ↔ Text.isBlank c = false ∧ c ≠ '\x7b' := by
  simp [isPlain]

theorem isGap_of_isPlain (h : isPlain c = true) : Sample.isGap c = false := by
  apply Bool.eq_false_iff.mpr
  intro hg
  rcases isGap_cases hg with rfl | rfl <;> exact absurd h (by decide)

theorem isPlain_digit (h : Decimal.isDigit c = true) : isPlain c = true := by
  obtain ⟨hl, hu⟩ : '0' ≤ c ∧ c ≤ '9' := by simpa [Decimal.isDigit] using h
  have hl : 48 ≤ c.toNat := hl
  have hu : c.toNat ≤ 57 := hu
  refine isPlain_iff.mpr ⟨?_, ?_⟩
  · simp only [Text.isBlank, Bool.or_eq_false_iff, Bool.and_eq_false_iff, decide_eq_false_iff_not,
      beq_eq_false_iff_ne]
    omega
  · rintro rfl
    exact absurd hu (by decide)

theorem plain_splitSign (h : ∀ c ∈ (Decimal.splitSign s).2, isPlain c = true) :
    ∀ c ∈ s, isPlain c = true := by
  unfold Decimal.splitSign at h
  split at h
  · exact List.forall_mem_cons.mpr ⟨rfl, h⟩
  · exact List.forall_mem_cons.mpr ⟨rfl, h⟩
  · exact h

theorem plain_digits (h : s.all Decimal.isDigit = true) : ∀ c ∈ s, isPlain c = true :=
  fun c hc => isPlain_digit (List.all_eq_true.mp h c hc)

theorem plain_of_readExponent {e : Int} (h : Decimal.readExponent? s = some e) :
    ∀ c ∈ s, isPlain c = true := by
  cases s with
  | nil => simp
  | cons c rest =>
    simp only [Decimal.readExponent?] at h
    split at h
    · rename_i hc
      split at h
      · simp at h
      · rename_i hd
        refine List.forall_mem_cons.mpr
          ⟨by rcases hc with rfl | rfl <;> rfl, plain_splitSign (plain_digits ?_)⟩
        simp_all
    · simp at h

theorem plain_of_decimal {d : Decimal} (h : Decimal.read? s = some d) :
    s ≠ [] ∧ ∀ c ∈ s, isPlain c = true := by
  have run (t : List Char) : ∀ c ∈ t.takeWhile Decimal.isDigit, isPlain c = true :=
    fun c hc => isPlain_digit (List.mem_takeWhile_imp hc)
  refine ⟨?_, plain_splitSign ?_⟩
  · rintro rfl
    simp [Decimal.read?, Decimal.splitSign] at h
  · simp only [Decimal.read?] at h
    rw [← List.takeWhile_append_dropWhile (p := Decimal.isDigit) (l := (Decimal.splitSign s).2),
      List.forall_mem_append]
    refine ⟨run _, ?_⟩
    split at h
    · rename_i more hdot
      obtain ⟨e, he, -⟩ := Option.map_eq_some_iff.mp (Option.ite_none_left_eq_some.mp h).2
      rw [hdot]
      refine List.forall_mem_cons.mpr ⟨rfl, ?_⟩
      rw [← List.takeWhile_append_dropWhile (p := Decimal.isDigit) (l := more), List.forall_mem_append]
      exact ⟨run _, plain_of_readExponent he⟩
    · obtain ⟨e, he, -⟩ := Option.map_eq_some_iff.mp (Option.ite_none_left_eq_some.mp h).2
      exact plain_of_readExponent he

theorem plain_of_word (hne : token ≠ []) (h : token.all isPlain = true) :
    token ≠ [] ∧ ∀ c ∈ token, isPlain c = true :=
  ⟨hne, List.all_eq_true.mp h⟩

theorem plain_of_number (h : number? token = some x) : token ≠ [] ∧ ∀ c ∈ token, isPlain c = true := by
  unfold number? at h
  split at h
  · subst token
    exact plain_of_word (by simp) (by decide)
  · split at h
    · rename_i hinf
      rcases hinf with rfl | rfl <;> exact plain_of_word (by simp) (by decide)
    · split at h
      · subst token
        exact plain_of_word (by simp) (by decide)
      · obtain ⟨d, hd, -⟩ := Option.bind_eq_some_iff.mp h
        exact plain_of_decimal hd

theorem plain_of_stamp {n : Int} (h : Decimal.readInt64? token = some n) :
    token ≠ [] ∧ ∀ c ∈ token, isPlain c = true := by
  simp only [Decimal.readInt64?] at h
  split at h
  · simp at h
  · rename_i hd
    refine ⟨?_, plain_splitSign (plain_digits ?_)⟩
    · rintro rfl
      simp [Decimal.splitSign] at hd
    · simp_all

theorem token_append (rest : List Char) (h : ∀ c ∈ token, isPlain c = true) (hg : IsGap g)
    (hne : g = [] → rest = []) :
    Sample.token (token ++ (g ++ rest)) = token ∧ Sample.afterToken (token ++ (g ++ rest)) = g ++ rest := by
  have inside : ∀ c ∈ token, (!Sample.isGap c) = true := by
    intro c hc
    simp [isGap_of_isPlain (h c hc)]
  have outside : ∀ c, (g ++ rest).head? = some c → (!Sample.isGap c) = false := by
    intro c hc
    rcases head?_gap hg hc with hgap | ⟨rfl, hr⟩
    · simp [hgap]
    · simp [hne rfl] at hr
  exact ⟨Text.takeWhile_run inside outside, Text.dropWhile_run inside outside⟩

theorem gap_of_plain (h : ∀ c ∈ s, isPlain c = true) : ∀ c, s.head? = some c → Sample.isGap c = false := by
  intro c hc
  exact isGap_of_isPlain (h c (List.mem_of_mem_head? hc))

theorem ending_written (h : WrittenValue w x) (hg : IsGap g) (name : List Char) :
    Sample.ending name (w ++ g) = .ok x := by
  cases h with
  | plain hx =>
    obtain ⟨hne, hp⟩ := plain_of_number hx
    have ht := token_append [] hp hg fun _ => rfl
    have hs : Sample.skip g = [] := skip_of_gap hg
    simp only [List.append_nil] at ht
    simp only [Sample.ending, ht.1, ht.2, if_neg hne, hx, hs]
    rfl
  | stamped hx hgap hgne hn =>
    rename_i token gap stamp n
    obtain ⟨hne, hp⟩ := plain_of_number hx
    obtain ⟨hsne, hsp⟩ := plain_of_stamp hn
    have ht := token_append (stamp ++ g) hp hgap fun h => absurd h hgne
    have hs := token_append [] hsp hg fun _ => rfl
    have hbetween : Sample.skip (gap ++ (stamp ++ g)) = stamp ++ g := by
      apply skip_gap hgap
      intro c hc
      rw [head?_append_of_ne_nil hsne] at hc
      exact gap_of_plain hsp c hc
    have hend : Sample.skip g = [] := skip_of_gap hg
    simp only [List.append_nil] at hs
    simp only [List.append_assoc, Sample.ending, ht.1, ht.2, if_neg hne, hx, hbetween, hs.1, hs.2, hend]
    simp [hn]

theorem isGap_of_skip (h : Sample.skip s = []) : IsGap s := by
  rw [← gap_append_skip s, h, List.append_nil]
  exact isGap_takeWhile s

theorem token_append_after (s : List Char) : Sample.token s ++ Sample.afterToken s = s :=
  List.takeWhile_append_dropWhile

theorem token_afterToken (s : List Char) : Sample.token (Sample.afterToken s) = [] := by
  cases h : Sample.afterToken s with
  | nil => rfl
  | cons c rest =>
    have hc : (!Sample.isGap c) = false := Text.head?_dropWhile_run s (congrArg List.head? h)
    exact List.takeWhile_cons_of_neg (by simp [hc])

theorem written_of_ending (h : Sample.ending name s = .ok x) :
    ∃ w g, WrittenValue w x ∧ IsGap g ∧ s = w ++ g := by
  simp only [Sample.ending] at h
  split at h
  · simp at h
  · split at h
    · simp at h
    · rename_i y hy
      split at h
      · simp at h
      · rename_i hstamp
        split at h
        · rename_i hrest
          obtain rfl := Except.ok.inj h
          have hgap := isGap_of_skip hrest
          by_cases hempty : Sample.token (Sample.skip (Sample.afterToken s)) = []
          · refine ⟨_, Sample.afterToken s, .plain hy, ?_, (token_append_after s).symm⟩
            have hall := token_append_after (Sample.skip (Sample.afterToken s))
            rw [hempty, List.nil_append] at hall
            rw [← gap_append_skip (Sample.afterToken s)]
            exact (isGap_takeWhile _).append (hall ▸ hgap)
          · obtain ⟨n, hn⟩ := Option.ne_none_iff_exists'.mp (not_and.mp hstamp hempty)
            refine ⟨_, _, .stamped hy (isGap_takeWhile (Sample.afterToken s)) ?_ hn, hgap, ?_⟩
            · intro hnil
              have hskip := gap_append_skip (Sample.afterToken s)
              rw [hnil, List.nil_append] at hskip
              rw [hskip] at hempty
              exact hempty (token_afterToken s)
            · simp only [List.append_assoc]
              rw [token_append_after, gap_append_skip, token_append_after]
        · simp at h

/-! Lines -/

theorem WrittenValue.plain_head (h : WrittenValue w x) : ∃ c, w.head? = some c ∧ isPlain c = true := by
  have start {t : List Char} (ht : t ≠ [] ∧ ∀ c ∈ t, isPlain c = true) (rest : List Char) :
      ∃ c, (t ++ rest).head? = some c ∧ isPlain c = true := by
    cases t with
    | nil => exact absurd rfl ht.1
    | cons c t => exact ⟨c, rfl, ht.2 c List.mem_cons_self⟩
  cases h with
  | plain hx => simpa using start (plain_of_number hx) []
  | stamped hx => exact start (plain_of_number hx) _

theorem WrittenValue.plain_head_append (h : WrittenValue w x) (g : List Char) :
    ∃ c, w.head? = some c ∧ (w ++ g).head? = some c ∧ isPlain c = true := by
  obtain ⟨c, hc, hplain⟩ := h.plain_head
  exact ⟨c, hc, by simp [List.head?_append, hc], hplain⟩

theorem WrittenValue.stops (h : WrittenValue w x) (g : List Char) :
    ∀ d, (w ++ g).head? = some d → Sample.isGap d = false := by
  intro d hd
  obtain ⟨c, -, hc, hplain⟩ := h.plain_head_append g
  obtain rfl := Option.some.inj (hc.symm.trans hd)
  exact isGap_of_isPlain hplain

theorem labelSet_of_ne (h : s.head? ≠ some '\x7b') : Sample.labelSet s = .ok ([], s) := by
  cases s with
  | nil => rfl
  | cons c rest =>
    have hc : c ≠ '\x7b' := by simpa using h
    simp [Sample.labelSet, hc]

theorem labelSet_brace (s : List Char) : Sample.labelSet ('\x7b' :: s) = Sample.labelsTo [] s := rfl

theorem isMetricName_takeWhile (h : (s.head?.map isNameStart).getD false = true) :
    isMetricName (s.takeWhile isNameChar) = true := by
  refine isMetricName_iff.mpr ⟨?_, fun c hc => List.mem_takeWhile_imp hc⟩
  cases s with
  | nil => simp at h
  | cons c s =>
    have hc : isNameStart c = true := by simpa using h
    simpa [isNameChar_of_start hc] using hc

theorem read_name (hn : isMetricName name = true) (hr : ∀ c, rest.head? = some c → isNameChar c = false) :
    Sample.read (name ++ rest) = (do
      let (ls, more) ← Sample.labelSet (Sample.skip rest)
      let value ← Sample.ending name (Sample.skip more)
      pure (Sample.ofChars name ls value)) := by
  obtain ⟨hstart, hchars⟩ := isMetricName_iff.mp hn
  have hne : name ≠ [] := by
    rintro rfl
    simp at hstart
  rw [Sample.read, head?_append_of_ne_nil hne, if_pos hstart, Text.takeWhile_run hchars hr,
    Text.dropWhile_run hchars hr]
  rfl

theorem read_written {sample : Sample} (h : WrittenSample w sample) (hg : IsGap g) :
    Sample.read (w ++ g) = .ok sample := by
  cases h with
  | bare hn hgap hv hne =>
    rename_i name gap value x
    obtain ⟨c, hvalue, hhead, hc⟩ := hv.plain_head_append g
    have hnext : ∀ d, (gap ++ (value ++ g)).head? = some d → isNameChar d = false := by
      intro d hd
      rcases head?_gap hgap hd with hd | ⟨hnil, hd⟩
      · exact (isNameChar_gap hd).1
      · obtain rfl := Option.some.inj (hhead.symm.trans hd)
        exact hne hnil c hvalue
    rw [List.append_assoc, List.append_assoc, read_name hn hnext, skip_gap hgap (hv.stops g),
      labelSet_of_ne (by simpa [hhead] using (isPlain_iff.mp hc).2)]
    simp only [bind, Except.bind, skip_eq_self (hv.stops g), ending_written hv hg, pure, Except.pure]
  | labelled hn hgap hw hd hgap' hv =>
    rename_i name gap w gap' value labels x
    have hnext : ∀ d, (gap ++ '\x7b' :: (w ++ (gap' ++ (value ++ g)))).head? = some d →
        isNameChar d = false := by
      intro d hd
      rcases head?_gap hgap hd with hd | ⟨-, hd⟩
      · exact (isNameChar_gap hd).1
      · obtain rfl := Option.some.inj hd
        decide
    have hbrace : Sample.skip (gap ++ '\x7b' :: (w ++ (gap' ++ (value ++ g)))) =
        '\x7b' :: (w ++ (gap' ++ (value ++ g))) :=
      skip_gap hgap (by simp [Sample.isGap])
    have hset : Sample.labelsTo [] (w ++ (gap' ++ (value ++ g))) = .ok (labels, gap' ++ (value ++ g)) := by
      simpa using labelsTo_written [] hw hd (gap' ++ (value ++ g))
    simp only [List.append_assoc, List.cons_append]
    rw [read_name hn hnext, hbrace, labelSet_brace, hset]
    simp only [bind, Except.bind, skip_gap hgap' (hv.stops g), ending_written hv hg, pure, Except.pure]

theorem written_of_read {sample : Sample} (h : Sample.read s = .ok sample) :
    ∃ w g, WrittenSample w sample ∧ IsGap g ∧ s = w ++ g := by
  rw [Sample.read] at h
  split at h
  · rename_i hstart
    obtain ⟨⟨ls, rest⟩, hls, h⟩ := Sample.bind_eq_ok h
    obtain ⟨x, hx, h⟩ := Sample.bind_eq_ok h
    obtain rfl := Except.ok.inj h
    obtain ⟨v, g, hv, hg, hrest⟩ := written_of_ending hx
    have hname := isMetricName_takeWhile hstart
    have hgap := isGap_takeWhile (s.dropWhile isNameChar)
    by_cases hbrace : (Sample.skip (s.dropWhile isNameChar)).head? = some '\x7b'
    · obtain ⟨t, ht⟩ := List.head?_eq_some_iff.mp hbrace
      rw [ht, labelSet_brace] at hls
      obtain ⟨w, ls, rfl, hw, rfl, hd⟩ := written_of_labelsTo hls (by simp)
      refine ⟨_, g, .labelled hname hgap hw hd (isGap_takeWhile rest) hv, hg, ?_⟩
      simp only [List.append_assoc, List.cons_append]
      rw [← hrest, gap_append_skip, ← ht, gap_append_skip, List.takeWhile_append_dropWhile]
    · rw [labelSet_of_ne hbrace] at hls
      obtain ⟨rfl, rfl⟩ := Prod.mk.inj (Except.ok.inj hls)
      rw [skip_skip] at hrest
      refine ⟨_, g, .bare hname hgap hv ?_, hg, ?_⟩
      · intro hnil c hc
        apply Text.head?_dropWhile_run s
        rw [← gap_append_skip (s.dropWhile isNameChar), hnil, hrest, List.nil_append]
        exact (head?_append_of_ne_nil (by rintro rfl; simp at hc)).trans hc
      · simp only [List.append_assoc]
        rw [← hrest, gap_append_skip, List.takeWhile_append_dropWhile]
  · simp at h

theorem nameChar_range (h : isNameChar c = true) : 48 ≤ c.toNat ∧ c.toNat ≤ 122 := by
  have range {a b : Char} (h : a ≤ c ∧ c ≤ b) : a.toNat ≤ c.toNat ∧ c.toNat ≤ b.toNat := h
  simp only [isNameChar, isLabelChar, isLabelStart, Bool.or_eq_true, Bool.and_eq_true, decide_eq_true_eq,
    beq_iff_eq] at h
  rcases h with (((h | h) | rfl) | h) | rfl
  · exact ⟨Nat.le_trans (by decide) (range h).1, (range h).2⟩
  · exact ⟨Nat.le_trans (by decide) (range h).1, Nat.le_trans (range h).2 (by decide)⟩
  · decide
  · exact ⟨(range h).1, Nat.le_trans (range h).2 (by decide)⟩
  · decide

theorem isBlank_nameChar (h : isNameChar c = true) : Text.isBlank c = false := by
  have := nameChar_range h
  simp only [Text.isBlank, Bool.or_eq_false_iff, Bool.and_eq_false_iff, decide_eq_false_iff_not,
    beq_eq_false_iff_ne]
  omega

theorem WrittenValue.last (h : WrittenValue w x) : ∃ c, w.getLast? = some c ∧ Text.isBlank c = false := by
  have last {t : List Char} (ht : t ≠ [] ∧ ∀ c ∈ t, isPlain c = true) (before : List Char) :
      ∃ c, (before ++ t).getLast? = some c ∧ Text.isBlank c = false := by
    obtain ⟨t, c, rfl⟩ := (List.eq_nil_or_concat t).resolve_left ht.1
    refine ⟨c, by simp, (isPlain_iff.mp (ht.2 c ?_)).1⟩
    simp
  cases h with
  | plain hx => simpa using last (plain_of_number hx) []
  | @stamped token gap stamp x n hx hg hne hs => simpa using last (plain_of_stamp hs) (token ++ gap)

theorem WrittenSample.head {sample : Sample} (h : WrittenSample w sample) :
    ∃ c rest, w = c :: rest ∧ isNameChar c = true := by
  have first {name : List Char} (hn : isMetricName name = true) (rest : List Char) :
      ∃ c more, name ++ rest = c :: more ∧ isNameChar c = true := by
    cases name with
    | nil => simp [isMetricName] at hn
    | cons c name => exact ⟨c, _, rfl, (isMetricName_iff.mp hn).2 c List.mem_cons_self⟩
  cases h with
  | bare hn => exact first hn _
  | labelled hn => exact first hn _

theorem WrittenSample.last {sample : Sample} (h : WrittenSample w sample) :
    ∃ c, w.getLast? = some c ∧ Text.isBlank c = false := by
  have last {value : List Char} {x : Float} (hv : WrittenValue value x) (before : List Char) :
      ∃ c, (before ++ value).getLast? = some c ∧ Text.isBlank c = false := by
    obtain ⟨c, hc, hb⟩ := hv.last
    exact ⟨c, by simp [List.getLast?_append, hc], hb⟩
  cases h with
  | @bare name gap value x hn hg hv => simpa using last hv (name ++ gap)
  | @labelled name gap w gap' value labels x hn hg hw hd hg' hv =>
    simpa using last hv (name ++ (gap ++ '\x7b' :: (w ++ gap')))

theorem line_written {sample : Sample} (h : WrittenSample w sample) : Line.read w = .ok (.sample sample) := by
  obtain ⟨c, rest, rfl, hc⟩ := h.head
  obtain ⟨d, hd, hb⟩ := h.last
  have hne : c ≠ '#' := by
    rintro rfl
    exact absurd hc (by decide)
  have hread : Sample.read (c :: rest) = .ok sample := by simpa using read_written h isGap_nil
  rw [Line.read, Text.trim_eq_self (isBlank_nameChar hc) hb rfl hd]
  split
  · contradiction
  · rename_i he
    exact absurd (List.cons.inj he).1 hne
  · rw [hread]
    rfl

theorem written_spelledLabel (h : isLabelName l.1 = true) : WrittenLabel (spelledLabel l) l :=
  .mk h isGap_nil isGap_nil (quoted_escaped l.2)

theorem written_spelledLabels (h : ∀ l ∈ ls, isLabelName l.1 = true) :
    WrittenLabels (((ls.map spelledLabel).intersperse [',']).flatten ++ ['\x7d']) ls := by
  induction ls with
  | nil => exact .none isGap_nil
  | cons l ls ih =>
    obtain ⟨hl, hls⟩ := List.forall_mem_cons.mp h
    cases ls with
    | nil => simpa using WrittenLabels.last isGap_nil (written_spelledLabel hl) isGap_nil
    | cons l' ls => simpa using WrittenLabels.more isGap_nil (written_spelledLabel hl) isGap_nil (ih hls)

theorem written_spelled (hn : isMetricName name = true) (h : ∀ l ∈ ls, isLabelName l.1 = true)
    (hd : (ls.map (·.1)).Nodup) (hv : WrittenValue w x) :
    WrittenSample (spelled name ls w) (.ofChars name ls x) := by
  have := WrittenSample.labelled hn isGap_nil (written_spelledLabels h) hd isGap_space hv
  simpa [spelled] using this

/-- A trimmed line is read exactly as the grammar writes it. What is spelled out is read back, whatever
characters the label values are made of. -/
theorem read_iff_written :
    (∀ (line : List Char) (s : Sample), Text.trim line = line →
      (Sample.read line = .ok s ↔ WrittenSample line s)) ∧
    ∀ (name value : List Char) (labels : List (List Char × List Char)) (x : Float), isMetricName name = true →
      (∀ l ∈ labels, isLabelName l.1 = true) → (labels.map (·.1)).Nodup → WrittenValue value x →
      Sample.read (spelled name labels value) = .ok (.ofChars name labels x) := by
  refine ⟨fun line s htrim => ⟨fun h => ?_, fun h => ?_⟩, fun name value labels x hn hl hd hv => ?_⟩
  · obtain ⟨w, g, hw, hg, rfl⟩ := written_of_read h
    obtain rfl | ⟨g, c, rfl⟩ := List.eq_nil_or_concat g
    · rwa [List.append_nil]
    · have hc : Text.isBlank c = true := by
        rcases isGap_cases (hg c (by simp)) with rfl | rfl <;> decide
      rw [List.concat_eq_append, ← List.append_assoc] at htrim
      exact absurd htrim (Text.trim_concat_blank _ hc)
  · simpa using read_written h isGap_nil
  · simpa using read_written (written_spelled hn hl hd hv) isGap_nil

theorem read_iff_written_example :
    WrittenSample "m \x7ba = \"x\\\"y\", b=\"\\n\",\x7d1.5 7".toList
      ⟨"m", [("a", "x\"y"), ("b", "\n")], 1.5⟩ ∧
      Sample.read (spelled ['m'] [(['a'], ['"', '\\']), (['b'], ['\r', '\n'])] ['2']) =
        .ok ⟨"m", [("a", "\"\\"), ("b", "\r\n")], 2⟩ :=
  ⟨(read_iff_written.1 _ _ (by decide)).mp (by decide +kernel),
    read_iff_written.2 _ _ _ _ (by decide) (by decide) (by decide) (.plain (by decide +kernel))⟩

end ScrapeRelay.Exposition

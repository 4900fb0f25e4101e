import ScrapeRelay.Proofs.Json.Numerals

/-!
What is written as a JSON text is read back as the same value, with all characters of its strings and all its
finite numbers.
-/

namespace ScrapeRelay.Json

variable {s rest cs : List Char} {c : Char} {fuel depth : ℕ}

/-! Strings -/

theorem hexValue?_hexDigit {n : ℕ} (h : n < 16) : hexValue? (Text.hexDigit n) = some n := by
  decide +revert

theorem codePoint?_control (h : c.toNat < 32) :
    codePoint? ('0' :: '0' :: Text.hexDigit (c.toNat / 16) :: Text.hexDigit (c.toNat % 16) :: s) =
      some (c, s) := by
  have zero : hexValue? '0' = some 0 := rfl
  have high : hexValue? (Text.hexDigit (c.toNat / 16)) = some (c.toNat / 16) := hexValue?_hexDigit (by omega)
  have low : hexValue? (Text.hexDigit (c.toNat % 16)) = some (c.toNat % 16) := hexValue?_hexDigit (by omega)
  have number : 0 * 4096 + 0 * 256 + c.toNat / 16 * 16 + c.toNat % 16 = c.toNat := by omega
  simp only [codePoint?, unit?, zero, high, low, number, Option.bind_eq_bind, Option.bind_some]
  rw [if_neg (by omega), if_neg (by omega), Char.ofNat_toNat]

theorem characters_escape (c : Char) (s : List Char) :
    characters (fuel + 1) (escape c ++ s) = (characters fuel s).map fun r => (c :: r.1, r.2) := by
  have spelled {t : List Char} (h : escaped? t = some (c, s)) :
      characters (fuel + 1) ('\\' :: t) = (characters fuel s).map fun r => (c :: r.1, r.2) := by
    rw [characters, if_neg (by decide), if_pos rfl, h]
    simp only [Option.bind_eq_bind, Option.bind_some]
    cases characters fuel s <;> rfl
  have plain (hq : c ≠ '"') (hb : c ≠ '\\') (hc : ¬ c.toNat < 32) :
      characters (fuel + 1) (c :: s) = (characters fuel s).map fun r => (c :: r.1, r.2) := by
    rw [characters, if_neg hq, if_neg hb, if_neg hc]
    cases characters fuel s <;> rfl
  unfold escape
  split_ifs with hq hb h₁ h₂ h₃ h₄ h₅ hc
  · subst hq
    exact spelled rfl
  · subst hb
    exact spelled rfl
  · exact spelled (h₁ ▸ rfl)
  · exact spelled (h₂ ▸ rfl)
  · exact spelled (h₃ ▸ rfl)
  · exact spelled (h₄ ▸ rfl)
  · exact spelled (h₅ ▸ rfl)
  · exact spelled (codePoint?_control hc)
  · exact plain hq hb hc

theorem characters_escaped (h : cs.length < fuel) (s : List Char) :
    characters fuel (cs.flatMap escape ++ '"' :: s) = some (cs, s) := by
  induction cs generalizing fuel with
  | nil =>
    obtain ⟨fuel, rfl⟩ := Nat.exists_eq_add_one_of_ne_zero (Nat.ne_of_gt h)
    rfl
  | cons c cs ih =>
    obtain ⟨fuel, rfl⟩ := Nat.exists_eq_add_one_of_ne_zero (Nat.ne_of_gt (Nat.zero_lt_of_lt h))
    rw [List.flatMap_cons, List.append_assoc, characters_escape, ih (Nat.lt_of_succ_lt_succ h)]
    rfl

theorem length_le_escaped (cs : List Char) : cs.length ≤ (cs.flatMap escape).length := by
  have one (c : Char) : 1 ≤ (escape c).length := by
    unfold escape
    split_ifs <;> simp
  induction cs with
  | nil => exact Nat.le_refl 0
  | cons c cs ih =>
    have := one c
    rw [List.flatMap_cons, List.length_append, List.length_cons]
    omega

theorem characters_body (cs s : List Char) :
    characters ((cs.flatMap escape ++ '"' :: s).length + 1) (cs.flatMap escape ++ '"' :: s) = some (cs, s) := by
  apply characters_escaped
  have := length_le_escaped cs
  rw [List.length_append]
  omega

/-! Values -/

/-- A value that is read back as it was written: its numbers are readable, and its arrays and objects do not
nest deeper than `depth`. -/
inductive Readable : ℕ → Json → Prop
  | null (depth : ℕ) : Readable depth .null
  | bool (depth : ℕ) (b : Bool) : Readable depth (.bool b)
  | num {depth : ℕ} {n : Number} (h : n.Readable) : Readable depth (.num n)
  | str (depth : ℕ) (s : String) : Readable depth (.str s)
  | arr {depth : ℕ} {items : List Json} (h : ∀ j ∈ items, Readable depth j) :
      Readable (depth + 1) (.arr items)
  | obj {depth : ℕ} {members : List (String × Json)} (h : ∀ m ∈ members, Readable depth m.2) :
      Readable (depth + 1) (.obj members)

def Reads (depth : ℕ) (j : Json) : Prop :=
  ∀ fuel rest, Ends rest → j.write.length ≤ fuel → value fuel depth (j.write ++ rest) = some (j, rest)

def Opens (s : List Char) : Prop := ∃ c t, s = c :: t ∧ isSpace c = false ∧ c ≠ ']'

theorem Opens.steps (h : Opens s) (hl : s.length ≤ fuel) : ∃ k, fuel = k + 1 := by
  obtain ⟨c, t, rfl, -⟩ := h
  exact Nat.exists_eq_add_one_of_ne_zero (Nat.ne_of_gt (Nat.lt_of_lt_of_le (Nat.zero_lt_succ _) hl))

theorem skip_cons (h : isSpace c = false) (s : List Char) : skip (c :: s) = c :: s := by
  simp [skip, h]

theorem Readable.opens {j : Json} (h : Readable depth j) : Opens j.write := by
  cases h with
  | null => exact ⟨'n', _, rfl, rfl, by decide⟩
  | bool _ b => cases b <;> exact ⟨_, _, rfl, rfl, by decide⟩
  | num hn =>
    obtain ⟨c, t, ht, hc⟩ := writeNumber_opens hn
    obtain ⟨hs, hne⟩ := number_char hc
    exact ⟨c, t, by rw [write, ht], hs, hne _ (by decide)⟩
  | str => exact ⟨'"', _, rfl, rfl, by decide⟩
  | arr => exact ⟨'[', _, rfl, rfl, by decide⟩
  | obj => exact ⟨'\x7b', _, rfl, rfl, by decide⟩

theorem reads_number {n : Number} (h : n.Readable) : Reads depth (.num n) := by
  intro fuel rest hr hfuel
  obtain ⟨c, t, ht, hc⟩ := writeNumber_opens h
  obtain ⟨hs, hne⟩ := number_char hc
  obtain ⟨whole, hnum, hof⟩ := number_reads h hr
  obtain ⟨fuel, rfl⟩ := (Readable.num h : Readable depth (.num n)).opens.steps hfuel
  rw [write, ht]
  rw [ht] at hnum hof
  rw [List.cons_append] at hnum ⊢
  rw [value, skip_cons hs]
  simp [hne, hnum, hof]

theorem elements_reads {items : List Json} (h : ∀ j ∈ items, Reads depth j)
    (hne : items ≠ []) (hfuel : (writeItems items).length < fuel) :
    elements fuel depth (writeItems items ++ ']' :: rest) = some (items, rest) := by
  induction items generalizing fuel with
  | nil => exact absurd rfl hne
  | cons j items ih =>
    obtain ⟨hj, hitems⟩ := List.forall_mem_cons.mp h
    obtain ⟨fuel, rfl⟩ := Nat.exists_eq_add_one_of_ne_zero (Nat.ne_of_gt (Nat.zero_lt_of_lt hfuel))
    -- One step is left for each item, since a comma or the bracket stands behind it.
    cases items with
    | nil =>
      rw [writeItems] at hfuel ⊢
      rw [elements, hj fuel (']' :: rest) (by simp [Ends]) (by omega)]
      rfl
    | cons j' items =>
      have text : writeItems (j :: j' :: items) = j.write ++ ',' :: writeItems (j' :: items) := rfl
      rw [text, List.length_append, List.length_cons] at hfuel
      rw [text, List.append_assoc, elements, List.cons_append,
        hj fuel (',' :: (writeItems (j' :: items) ++ ']' :: rest)) (by simp [Ends]) (by omega)]
      have hrest := ih hitems (by simp) (Nat.lt_of_le_of_lt (Nat.le_add_left _ _) (Nat.lt_of_succ_lt_succ hfuel))
      simp [skip_cons (c := ',') rfl, hrest]

theorem member_reads {m : String × Json} (h : Reads depth m.2) {d : Char} (hd : d = ',' ∨ d = '\x7d')
    (hfuel : (writeMembers [m]).length ≤ fuel) (s : List Char) :
    members (fuel + 1) depth (writeMembers [m] ++ d :: s) =
      if d = ',' then (members fuel depth s).map fun r => (m :: r.1, r.2) else some ([m], s) := by
  obtain ⟨name, j⟩ := m
  have text : writeMembers [(name, j)] ++ d :: s =
      '"' :: (name.toList.flatMap escape ++ '"' :: ':' :: (j.write ++ d :: s)) := by
    simp [writeMembers, writeString]
  have value : value fuel depth (j.write ++ d :: s) = some (j, d :: s) := by
    apply h
    · rcases hd with rfl | rfl <;> simp [Ends]
    · simp only [writeMembers, List.length_append, List.length_cons] at hfuel
      dsimp only
      omega
  have split : skip (d :: s) = d :: s := skip_cons (by rcases hd with rfl | rfl <;> rfl) s
  rw [text, members, skip_cons rfl]
  simp only [characters_body, Option.bind_eq_bind, Option.bind_some, skip_cons (c := ':') rfl, value, split,
    String.ofList_toList]
  rcases hd with rfl | rfl
  · cases members fuel depth s <;> rfl
  · rfl

theorem members_reads {ms : List (String × Json)} (h : ∀ m ∈ ms, Reads depth m.2)
    (hne : ms ≠ []) (hfuel : (writeMembers ms).length < fuel) :
    members fuel depth (writeMembers ms ++ '\x7d' :: rest) = some (ms, rest) := by
  induction ms generalizing fuel with
  | nil => exact absurd rfl hne
  | cons m ms ih =>
    obtain ⟨hm, hms⟩ := List.forall_mem_cons.mp h
    obtain ⟨fuel, rfl⟩ := Nat.exists_eq_add_one_of_ne_zero (Nat.ne_of_gt (Nat.zero_lt_of_lt hfuel))
    cases ms with
    | nil => exact member_reads hm (.inr rfl) (Nat.le_of_lt_succ hfuel) rest
    | cons m' ms =>
      have text : writeMembers (m :: m' :: ms) = writeMembers [m] ++ ',' :: writeMembers (m' :: ms) := by
        simp [writeMembers]
      rw [text, List.length_append, List.length_cons] at hfuel
      rw [text, List.append_assoc, List.cons_append, member_reads hm (.inl rfl) (by omega), if_pos rfl,
        ih hms (by simp) (by omega)]
      rfl

theorem writeItems_opens {items : List Json} (h : ∀ j ∈ items, Opens j.write) (hne : items ≠ [])
    (t : List Char) : Opens (writeItems items ++ t) := by
  match items, hne with
  | [j], _ =>
    obtain ⟨c, s, hs, hc⟩ := h j (by simp)
    exact ⟨c, s ++ t, by rw [writeItems, hs]; rfl, hc⟩
  | j :: j' :: items, _ =>
    obtain ⟨c, s, hs, hc⟩ := h j (by simp)
    exact ⟨c, s ++ ',' :: writeItems (j' :: items) ++ t, by simp [writeItems, hs], hc⟩

theorem writeMembers_opens {ms : List (String × Json)} (hne : ms ≠ []) (s : List Char) :
    ∃ t, writeMembers ms ++ s = '"' :: t := by
  cases ms with
  | nil => exact absurd rfl hne
  | cons m ms => cases ms <;> exact ⟨_, rfl⟩

theorem reads_string (s : String) : Reads depth (.str s) := by
  intro fuel rest _ hfuel
  obtain ⟨fuel, rfl⟩ := (Readable.str depth s).opens.steps hfuel
  have text : write (.str s) ++ rest = '"' :: (s.toList.flatMap escape ++ '"' :: rest) := by
    simp [write, writeString]
  rw [text, value, skip_cons rfl]
  simp only [Char.reduceEq, ↓reduceIte, characters_body, Option.bind_eq_bind, Option.bind_some,
    String.ofList_toList]

theorem reads_array {items : List Json} (h : ∀ j ∈ items, Readable depth j)
    (hitems : ∀ j ∈ items, Reads depth j) : Reads (depth + 1) (.arr items) := by
  intro fuel rest _ hfuel
  obtain ⟨fuel, rfl⟩ := (Readable.arr h).opens.steps hfuel
  have text : write (.arr items) ++ rest = '[' :: (writeItems items ++ ']' :: rest) := by simp [write]
  rw [text, value, skip_cons rfl]
  by_cases hne : items = []
  · subst hne
    rfl
  · have hlen : (writeItems items).length < fuel := by
      simp only [write, List.length_append, List.length_cons] at hfuel
      omega
    have read : elements fuel depth (writeItems items ++ ']' :: rest) = some (items, rest) :=
      elements_reads hitems hne hlen
    obtain ⟨c, t, ht, hc, hclose⟩ := writeItems_opens (fun j hj => (h j hj).opens) hne (']' :: rest)
    rw [ht] at read ⊢
    simp [skip_cons hc, hclose, read]

theorem reads_object {ms : List (String × Json)} (h : ∀ m ∈ ms, Readable depth m.2)
    (hms : ∀ m ∈ ms, Reads depth m.2) : Reads (depth + 1) (.obj ms) := by
  intro fuel rest _ hfuel
  obtain ⟨fuel, rfl⟩ := (Readable.obj h).opens.steps hfuel
  have text : write (.obj ms) ++ rest = '\x7b' :: (writeMembers ms ++ '\x7d' :: rest) := by simp [write]
  rw [text, value, skip_cons rfl]
  by_cases hne : ms = []
  · subst hne
    rfl
  · have hlen : (writeMembers ms).length < fuel := by
      simp only [write, List.length_append, List.length_cons] at hfuel
      omega
    have read : members fuel depth (writeMembers ms ++ '\x7d' :: rest) = some (ms, rest) :=
      members_reads hms hne hlen
    obtain ⟨t, ht⟩ := writeMembers_opens hne ('\x7d' :: rest)
    rw [ht] at read ⊢
    simp [skip_cons (c := '"') rfl, read]

theorem Readable.reads {j : Json} (h : Readable depth j) : Reads depth j := by
  induction h with
  | null depth =>
    intro fuel rest _ hfuel
    obtain ⟨fuel, rfl⟩ := (null depth).opens.steps hfuel
    rfl
  | bool depth b =>
    intro fuel rest _ hfuel
    obtain ⟨fuel, rfl⟩ := (bool depth b).opens.steps hfuel
    cases b <;> rfl
  | num h => exact reads_number h
  | str _ s => exact reads_string s
  | arr h ih => exact reads_array h ih
  | obj h ih => exact reads_object h ih

theorem read?_write {j : Json} (h : Readable maxDepth j) : read? j.write = some j := by
  have hr := h.reads (j.write.length + 1) [] (by simp [Ends]) (Nat.le_succ _)
  rw [List.append_nil] at hr
  rw [read?, hr]
  rfl

end ScrapeRelay.Json

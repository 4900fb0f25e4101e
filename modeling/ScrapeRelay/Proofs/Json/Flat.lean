import ScrapeRelay.Json.Writer
import ScrapeRelay.Proofs.Decimal.ReadBack

/-!
A written JSON text has no control characters and with them no line ends, whatever its strings have in them.
-/

namespace ScrapeRelay

def Text.Flat (s : List Char) : Prop := ∀ c ∈ s, 32 ≤ c.toNat

namespace Text

variable {s t : List Char} {c : Char}

@[simp] theorem flat_nil : Flat [] := by simp [Flat]

@[simp] theorem flat_cons : Flat (c :: s) ↔ 32 ≤ c.toNat ∧ Flat s := List.forall_mem_cons

@[simp] theorem flat_append : Flat (s ++ t) ↔ Flat s ∧ Flat t := List.forall_mem_append

theorem Flat.newline (h : Flat s) : '\n' ∉ s := fun hm => absurd (h _ hm) (by decide)

theorem hexDigit_printed {n : Nat} (h : n < 16) : 32 ≤ (hexDigit n).toNat := by
  decide +revert

end Text

namespace Decimal

open Text (Flat)

variable {ds : List Char}

theorem Digits.flat (h : Digits ds) : Flat ds := by
  intro c hc
  have hd := h c hc
  rw [isDigit, Bool.and_eq_true, decide_eq_true_iff, Char.le_def, UInt32.le_iff_toNat_le] at hd
  exact le_trans (by decide) hd.1

theorem digits_dropTrailing (n : ℕ) : Digits (dropTrailing (numeral n)) := by
  obtain ⟨k, hk⟩ := dropTrailing_append (numeral n)
  intro c hc
  exact digits_numeral n c (hk ▸ List.mem_append_left _ hc)

theorem positional_flat (l : Layout) (h : Digits ds) (point : ℤ) : Flat (l.positional ds point) := by
  rw [Layout.positional]
  split
  · simp [(digits_zeros _).flat, h.flat]
  · dsimp only
    split
    · cases l.pointed <;> simp [(digits_zeros _).flat, h.flat]
    · simp [(h.take _).flat, (h.drop _).flat]

theorem scientific_flat (h : Digits ds) (point : ℤ) : Flat (Layout.scientific ds point) := by
  have exponent (e : ℤ) : Flat ('e' :: (if e < 0 then '-' else '+') :: numeral e.natAbs) := by
    split <;> simp [(digits_numeral _).flat]
  match ds with
  | [] => exact exponent _
  | [d] => exact Text.flat_append.mpr ⟨h.flat, exponent _⟩
  | d :: d' :: rest =>
    obtain ⟨hd, hrest⟩ := Text.flat_cons.mp h.flat
    have mantissa : Flat (d :: '.' :: d' :: rest) :=
      Text.flat_cons.mpr ⟨hd, Text.flat_cons.mpr ⟨by decide, hrest⟩⟩
    exact Text.flat_append.mpr ⟨mantissa, exponent _⟩

theorem magnitude_flat (l : Layout) (x : Float) : Flat (l.magnitude x) := by
  rw [Layout.magnitude]
  split
  · cases l.pointed <;> simp
  · dsimp only
    split
    · exact positional_flat l (digits_dropTrailing _) _
    · exact scientific_flat (digits_dropTrailing _) _

theorem render_flat (l : Layout) (x : Float) : Flat (l.render x) := by
  rw [Layout.render]
  split
  · simp [magnitude_flat]
  · exact magnitude_flat l x

end Decimal

namespace Json

open Text (Flat)

theorem escape_flat (c : Char) : Flat (escape c) := by
  unfold escape
  repeat' split
  all_goals simp_all
  exact ⟨Text.hexDigit_printed (by omega), Text.hexDigit_printed (by omega)⟩

theorem writeString_flat (s : List Char) : Flat (writeString s) := by
  have body : Flat (s.flatMap escape) := by
    intro c hc
    obtain ⟨d, -, hd⟩ := List.mem_flatMap.mp hc
    exact escape_flat d c hd
  simp [writeString, body]

theorem writeNumber_flat (n : Number) : Flat (writeNumber n) := by
  cases n with
  | int n =>
    rw [writeNumber, writeInt]
    split <;> simp [(Decimal.digits_numeral _).flat]
  | real x => exact Decimal.render_flat realLayout x

mutual

theorem write_flat : (j : Json) → Flat j.write
  | null | bool true | bool false => by simp [write]
  | num n => writeNumber_flat n
  | str s => writeString_flat s.toList
  | arr items => by simp [write, writeItems_flat items]
  | obj members => by simp [write, writeMembers_flat members]

theorem writeItems_flat : (items : List Json) → Flat (writeItems items)
  | [] => Text.flat_nil
  | [j] => write_flat j
  | j :: j' :: rest => by simp [writeItems, write_flat j, writeItems_flat (j' :: rest)]

theorem writeMembers_flat : (members : List (String × Json)) → Flat (writeMembers members)
  | [] => Text.flat_nil
  | [(name, j)] => by simp [writeMembers, writeString_flat, write_flat j]
  | (name, j) :: m :: rest => by simp [writeMembers, writeString_flat, write_flat j, writeMembers_flat (m :: rest)]

end

end Json

end ScrapeRelay

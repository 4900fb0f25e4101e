import ScrapeRelay.Exposition.Fault
import ScrapeRelay.Exposition.Name
import ScrapeRelay.Exposition.Number

/-!
Sample lines: a metric name, optionally a label set in braces, a value and optionally a timestamp,
with spaces and tabs between them. A label value stands in quotes, and `\\`, `\"` and `\n` are its
only escapes.
-/

namespace ScrapeRelay.Exposition

structure Sample where
  name : String
  labels : List (String × String)
  value : Float
  deriving DecidableEq

namespace Sample

def label? (s : Sample) (name : String) : Option String := (s.labels.find? fun l => l.1 = name).map (·.2)

def isGap (c : Char) : Bool := c == ' ' || c == '\t'

def skip (s : List Char) : List Char := s.dropWhile isGap

theorem skip_length (s : List Char) : (skip s).length ≤ s.length := List.dropWhile_sublist _ |>.length_le

def expect (want : Char) : List Char → Except Fault (List Char)
  | [] => .error (.expected want none)
  | c :: rest => if c = want then .ok rest else .error (.expected want (some c))

theorem expect_length {want : Char} {s rest : List Char} (h : expect want s = .ok rest) :
    rest.length < s.length := by
  cases s with
  | nil => simp [expect] at h
  | cons c s =>
    simp only [expect] at h
    split at h
    · cases h; simp
    · simp at h

def push (c : Char) (r : Except Fault (List Char × List Char)) : Except Fault (List Char × List Char) :=
  r.map fun (cs, rest) => (c :: cs, rest)

/-- A label value from behind its opening quote to its closing quote, and what follows. -/
def unescape : List Char → Except Fault (List Char × List Char)
  | [] => .error .unterminatedValue
  | '"' :: rest => .ok ([], rest)
  | '\\' :: '\\' :: rest => push '\\' (unescape rest)
  | '\\' :: '"' :: rest => push '"' (unescape rest)
  | '\\' :: 'n' :: rest => push '\n' (unescape rest)
  | '\\' :: c :: _ => .error (.invalidEscape c)
  | ['\\'] => .error .unterminatedValue
  | c :: rest => push c (unescape rest)

theorem push_eq_ok {c : Char} {r : Except Fault (List Char × List Char)} {cs rest : List Char}
    (h : push c r = .ok (cs, rest)) : ∃ ds, cs = c :: ds ∧ r = .ok (ds, rest) := by
  cases r with
  | error f => simp [push, Except.map] at h
  | ok p =>
    obtain ⟨ds, more⟩ := p
    simp only [push, Except.map, Except.ok.injEq, Prod.mk.injEq] at h
    exact ⟨ds, h.1.symm, by rw [h.2]⟩

theorem unescape_length {s cs rest : List Char} (h : unescape s = .ok (cs, rest)) :
    rest.length < s.length := by
  fun_induction unescape s generalizing cs rest with
  | case1 => simp at h
  | case2 => cases h; simp
  | case3 more ih | case4 more ih | case5 more ih =>
    obtain ⟨ds, -, h⟩ := push_eq_ok h
    exact Nat.lt_trans (ih h) (by simp only [List.length_cons]; omega)
  | case6 => simp at h
  | case7 => simp at h
  | case8 c more _ _ _ _ _ _ ih =>
    obtain ⟨ds, -, h⟩ := push_eq_ok h
    exact Nat.lt_trans (ih h) (by simp only [List.length_cons]; omega)

def pair (s : List Char) : Except Fault ((List Char × List Char) × List Char) :=
  if (s.head?.map isLabelStart).getD false then do
    let rest ← expect '=' (skip (s.dropWhile isLabelChar))
    let rest ← expect '"' (skip rest)
    let (value, rest) ← unescape rest
    pure ((s.takeWhile isLabelChar, value), rest)
  else .error (.labelNameExpected s)

theorem bind_eq_ok {ε α β : Type} {r : Except ε α} {f : α → Except ε β} {b : β}
    (h : r >>= f = .ok b) : ∃ a, r = .ok a ∧ f a = .ok b := by
  cases r with
  | error e => simp [bind, Except.bind] at h
  | ok a => exact ⟨a, rfl, h⟩

theorem pair_length {s rest : List Char} {p : List Char × List Char} (h : pair s = .ok (p, rest)) :
    rest.length < s.length := by
  unfold pair at h
  split at h
  · obtain ⟨r₁, h₁, h⟩ := bind_eq_ok h
    obtain ⟨r₂, h₂, h⟩ := bind_eq_ok h
    obtain ⟨⟨v, r₃⟩, h₃, h⟩ := bind_eq_ok h
    simp only [pure, Except.pure, Except.ok.injEq, Prod.mk.injEq] at h
    have a := expect_length h₁
    have b := expect_length h₂
    have c := unescape_length h₃
    have d := skip_length (s.dropWhile isLabelChar)
    have e := skip_length r₁
    have f : (s.dropWhile isLabelChar).length ≤ s.length := (List.dropWhile_sublist _).length_le
    rw [← h.2]
    omega
  · simp at h

/-- The labels from behind the opening brace, or from behind a comma, to the closing brace. -/
def labelsTo (seen : List (List Char × List Char)) (s : List Char) :
    Except Fault (List (List Char × List Char) × List Char) :=
  if (skip s).head? = some '\x7d' then .ok (seen, (skip s).tail)
  else
    match h : pair (skip s) with
    | .error f => .error f
    | .ok (p, rest) =>
      have := pair_length h
      if seen.any fun q => q.1 = p.1 then .error (.duplicateLabel p.1)
      else
        match hr : skip rest with
        | [] => .error .unterminatedLabels
        | c :: more =>
          have : (c :: more).length ≤ rest.length := hr ▸ skip_length rest
          if c = ',' then labelsTo (seen ++ [p]) more
          else if c = '\x7d' then .ok (seen ++ [p], more)
          else .error (.separatorExpected c)
termination_by s.length
decreasing_by
  have := skip_length s
  simp only [List.length_cons] at *
  omega

def labelSet (s : List Char) : Except Fault (List (List Char × List Char) × List Char) :=
  match s with
  | [] => .ok ([], s)
  | c :: rest => if c = '\x7b' then labelsTo [] rest else .ok ([], s)

def token (s : List Char) : List Char := s.takeWhile fun c => !isGap c
def afterToken (s : List Char) : List Char := s.dropWhile fun c => !isGap c

/-- The value at the end of a sample line and the timestamp behind it, which is not kept. -/
def ending (name s : List Char) : Except Fault Float :=
  if token s = [] then .error (.missingValue name)
  else
    match number? (token s) with
    | none => .error (.invalidValue (token s))
    | some value =>
      let rest := skip (afterToken s)
      if token rest ≠ [] ∧ Decimal.readInt64? (token rest) = none then .error (.invalidTimestamp (token rest))
      else
        let rest := skip (afterToken rest)
        if rest = [] then .ok value else .error (.trailingText rest)

def read (s : List Char) : Except Fault Sample :=
  if (s.head?.map isNameStart).getD false then do
    let name := s.takeWhile isNameChar
    let (ls, rest) ← labelSet (skip (s.dropWhile isNameChar))
    let value ← ending name (skip rest)
    pure ⟨String.ofList name, ls.map fun l => (String.ofList l.1, String.ofList l.2), value⟩
  else .error (.metricNameExpected s)

end Sample

end ScrapeRelay.Exposition

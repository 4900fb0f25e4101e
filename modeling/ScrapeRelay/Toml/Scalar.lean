import ScrapeRelay.Decimal
import ScrapeRelay.Json
import ScrapeRelay.Json.Reader

/-!
TOML scalars: strings in four forms, whole numbers in four bases, floating-point numbers, truth
values and dates, which are kept as texts.
-/

namespace ScrapeRelay.Toml

open Decimal (isDigit)

def isGap (c : Char) : Bool := c == ' ' || c == '\t'

def gap (s : List Char) : List Char := s.dropWhile isGap

def isText (c : Char) : Bool := c == '\t' || (32 ≤ c.toNat && c.toNat != 127)

def lineEnd? : List Char → Option (List Char)
  | '\n' :: rest => some rest
  | '\r' :: '\n' :: rest => some rest
  | _ => none

def comment (s : List Char) : List Char :=
  match gap s with
  | '#' :: rest => rest.dropWhile isText
  | rest => rest

def hexNumber : Nat → Nat → List Char → Option (Nat × List Char)
  | 0, acc, s => some (acc, s)
  | _ + 1, _, [] => none
  | n + 1, acc, c :: rest => (Json.hexValue? c).bind fun d => hexNumber n (16 * acc + d) rest

def scalarValue? (n : Nat) : Option Char := if n.isValidChar then some (Char.ofNat n) else none

def escaped? : List Char → Option (Char × List Char)
  | 'b' :: s => some ('\x08', s)
  | 't' :: s => some ('\t', s)
  | 'n' :: s => some ('\n', s)
  | 'f' :: s => some ('\x0c', s)
  | 'r' :: s => some ('\r', s)
  | '"' :: s => some ('"', s)
  | '\\' :: s => some ('\\', s)
  | 'u' :: s => (hexNumber 4 0 s).bind fun (n, s) => (scalarValue? n).map fun c => (c, s)
  | 'U' :: s => (hexNumber 8 0 s).bind fun (n, s) => (scalarValue? n).map fun c => (c, s)
  | _ => none

/-- A string on one line, from behind its opening quote `q`. Only double quotes know escapes. -/
def oneLine (q : Char) : Nat → List Char → Option (List Char × List Char)
  | 0, _ => none
  | _ + 1, [] => none
  | fuel + 1, c :: s =>
    if c = q then some ([], s)
    else if c = '\\' ∧ q = '"' then do
      let (c, s) ← escaped? s
      let (cs, s) ← oneLine q fuel s
      some (c :: cs, s)
    else if isText c then (oneLine q fuel s).map fun (cs, s) => (c :: cs, s)
    else none

/-- Behind a backslash at the end of a line: everything up to the next visible character. -/
def continued? (s : List Char) : Option (List Char) :=
  (lineEnd? (gap s)).map fun s => s.dropWhile fun c => isGap c || c == '\n' || c == '\r'

/-- A string over several lines, from behind its opening quotes. Up to two quotes can stand right
before the three that end it. -/
def manyLines (q : Char) : Nat → List Char → Option (List Char × List Char)
  | 0, _ => none
  | _ + 1, [] => none
  | fuel + 1, c :: s =>
    if c = q then
      let run := (s.takeWhile (· == q)).length + 1
      if 3 ≤ run then
        let kept := min (run - 3) 2
        some (List.replicate kept q, s.drop (kept + 2))
      else (manyLines q fuel s).map fun (cs, s) => (c :: cs, s)
    else if c = '\\' ∧ q = '"' then
      match continued? s with
      | some s => manyLines q fuel s
      | none => do
        let (c, s) ← escaped? s
        let (cs, s) ← manyLines q fuel s
        some (c :: cs, s)
    else
      match lineEnd? (c :: s) with
      | some s => (manyLines q fuel s).map fun (cs, s) => ('\n' :: cs, s)
      | none => if isText c then (manyLines q fuel s).map fun (cs, s) => (c :: cs, s) else none

def string (q : Char) (s : List Char) : Option (List Char × List Char) :=
  match s with
  | c :: d :: rest =>
    if c = q ∧ d = q then
      let body := (lineEnd? rest).getD rest
      manyLines q (body.length + 1) body
    else oneLine q (s.length + 1) s
  | s => oneLine q (s.length + 1) s

def digits? (p : Char → Bool) : List Char → Option (List Char)
  | [] => none
  | [c] => if p c then some [c] else none
  | c :: '_' :: rest => if p c then (digits? p rest).map (c :: ·) else none
  | c :: rest => if p c then (digits? p rest).map (c :: ·) else none

def inBase (base : Nat) (s : List Char) : Option Nat :=
  (digits? (fun c => (Json.hexValue? c).any (· < base)) s).map
    (·.foldl (fun n c => base * n + (Json.hexValue? c).getD 0) 0)

def integer? (n : Int) : Option Json :=
  if -0x8000000000000000 ≤ n ∧ n < 0x8000000000000000 then some (.num (.int n)) else none

def whole? (s : List Char) : Option (List Char) :=
  (digits? isDigit s).bind fun ds => if ds.length ≠ 1 ∧ ds.head? = some '0' then none else some ds

def fractional (c : Char) : Bool := c != '.' && c != 'e' && c != 'E'

def tail? (s : List Char) : Option (List Char) := do
  let (fraction, s) ← match s with
    | '.' :: s => (digits? isDigit (s.takeWhile fractional)).map fun ds => ('.' :: ds, s.dropWhile fractional)
    | s => some ([], s)
  match s with
  | [] => some fraction
  | c :: s =>
    if c = 'e' ∨ c = 'E' then
      let (sign, s) := match s with
        | '+' :: s => (['+'], s)
        | '-' :: s => (['-'], s)
        | s => ([], s)
      (digits? isDigit s).map fun ds => fraction ++ 'e' :: sign ++ ds
    else none

def infinity : Float := 1 / 0
def notANumber : Float := 0 / 0

def number? (s : List Char) : Option Json := do
  let (negative, body) := Decimal.splitSign s
  if body = ['i', 'n', 'f'] then some (.num (.real (if negative then -infinity else infinity)))
  else if body = ['n', 'a', 'n'] then some (.num (.real notANumber))
  else
    let ds ← whole? (body.takeWhile fractional)
    match body.dropWhile fractional with
    | [] => integer? (if negative then -(Decimal.value ds : Int) else Decimal.value ds)
    | rest =>
      let rest ← tail? rest
      let d ← Decimal.read? ((if negative then ['-'] else []) ++ ds ++ rest)
      if d.toFloat.isFinite then some (.num (.real d.toFloat)) else none

def based? : List Char → Option Json
  | '0' :: 'x' :: s => (inBase 16 s).bind (integer? ·)
  | '0' :: 'o' :: s => (inBase 8 s).bind (integer? ·)
  | '0' :: 'b' :: s => (inBase 2 s).bind (integer? ·)
  | _ => none

def twoDigits? (low high : Nat) : List Char → Option (List Char)
  | a :: b :: rest =>
    let n := Decimal.value [a, b]
    if isDigit a && isDigit b && low ≤ n && n ≤ high then some rest else none
  | _ => none

def after? (c : Char) : List Char → Option (List Char)
  | d :: rest => if d = c then some rest else none
  | [] => none

def date? (s : List Char) : Option (List Char) := do
  let s ← twoDigits? 0 99 s
  let s ← twoDigits? 0 99 s
  let s ← after? '-' s
  let s ← twoDigits? 1 12 s
  let s ← after? '-' s
  twoDigits? 1 31 s

def time? (s : List Char) : Option (List Char) := do
  let s ← twoDigits? 0 23 s
  let s ← after? ':' s
  let s ← twoDigits? 0 59 s
  let s ← after? ':' s
  let s ← twoDigits? 0 60 s
  match s with
  | '.' :: s => if (s.takeWhile isDigit).isEmpty then none else some (s.dropWhile isDigit)
  | s => some s

def offset? : List Char → Option (List Char × List Char)
  | 'Z' :: s => some (['Z'], s)
  | 'z' :: s => some (['Z'], s)
  | c :: s =>
    if c = '+' ∨ c = '-' then do
      let rest ← twoDigits? 0 23 s
      let rest ← after? ':' rest
      let rest ← twoDigits? 0 59 rest
      some (c :: s.take 5, rest)
    else some ([], c :: s)
  | [] => some ([], [])

def moment? (s : List Char) : Option (Json × List Char) :=
  let kept := fun (rest : List Char) => s.take (s.length - rest.length)
  let text := fun (cs : List Char) => Json.str (String.ofList cs)
  match date? s with
  | none => (time? s).map fun rest => (text (kept rest), rest)
  | some rest =>
    let day := kept rest
    match rest with
    | c :: s =>
      if c = 'T' ∨ c = 't' ∨ c = ' ' then
        match time? s with
        | some rest => do
          let clock := s.take (s.length - rest.length)
          let (zone, rest) ← offset? rest
          some (text (day ++ 'T' :: clock ++ zone), rest)
        | none => if c = ' ' then some (text day, rest) else none
      else some (text day, rest)
    | [] => some (text day, [])

def isScalarChar (c : Char) : Bool :=
  isDigit c || ('a' ≤ c && c ≤ 'z') || ('A' ≤ c && c ≤ 'Z') || c == '_' || c == '+' ||
    c == '-' || c == '.' || c == ':'

def plain? (s : List Char) : Option (Json × List Char) :=
  match moment? s with
  | some found => some found
  | none =>
    let token := s.takeWhile isScalarChar
    let found :=
      if token = ['t', 'r', 'u', 'e'] then some (.bool true)
      else if token = ['f', 'a', 'l', 's', 'e'] then some (.bool false)
      else if token = [] then none
      else (based? token).or (number? token)
    found.map fun j => (j, s.dropWhile isScalarChar)

end ScrapeRelay.Toml

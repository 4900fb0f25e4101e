import ScrapeRelay.Toml.Scalar
import ScrapeRelay.Toml.Table

/-!
Reading TOML documents: statements line by line, each an entry, a table header or an element header.
-/

namespace ScrapeRelay.Toml

def isBareKey (c : Char) : Bool :=
  Decimal.isDigit c || ('a' ≤ c && c ≤ 'z') || ('A' ≤ c && c ≤ 'Z') || c == '_' || c == '-'

def simpleKey (s : List Char) : Option (String × List Char) :=
  match s with
  | '"' :: rest => (oneLine '"' (s.length + 1) rest).map fun (cs, s) => (String.ofList cs, s)
  | '\'' :: rest => (oneLine '\'' (s.length + 1) rest).map fun (cs, s) => (String.ofList cs, s)
  | s =>
    let name := s.takeWhile isBareKey
    if name = [] then none else some (String.ofList name, s.dropWhile isBareKey)

def dottedKey : Nat → List Char → Option ((List String × String) × List Char)
  | 0, _ => none
  | fuel + 1, s => do
    let (k, s) ← simpleKey (gap s)
    match gap s with
    | '.' :: rest => do
      let ((path, last), s) ← dottedKey fuel rest
      some ((k :: path, last), s)
    | s => some (([], k), s)

def blankLines : Nat → List Char → List Char
  | 0, s => s
  | fuel + 1, s =>
    match lineEnd? (comment s) with
    | some rest => blankLines fuel rest
    | none => comment s

mutual

def value : Nat → List Char → Option (Json × List Char)
  | 0, _ => none
  | fuel + 1, s =>
    match s with
    | [] => none
    | c :: rest =>
      if c = '"' ∨ c = '\'' then (string c rest).map fun (cs, s) => (.str (String.ofList cs), s)
      else if c = '[' then (items fuel (blankLines (s.length + 1) rest)).map fun (js, s) => (.arr js, s)
      else if c = '\x7b' then
        match gap rest with
        | d :: more =>
          if d = '\x7d' then some (.obj [], more)
          else (entries fuel [] (d :: more)).map fun (es, s) => (.obj (members es), s)
        | [] => none
      else plain? s

def items : Nat → List Char → Option (List Json × List Char)
  | 0, _ => none
  | fuel + 1, s =>
    match s with
    | ']' :: rest => some ([], rest)
    | s => do
      let (j, s) ← value fuel s
      match blankLines (s.length + 1) s with
      | ',' :: rest => (items fuel (blankLines (rest.length + 1) rest)).map fun (js, s) => (j :: js, s)
      | ']' :: rest => some ([j], rest)
      | _ => none

def entries : Nat → Entries → List Char → Option (Entries × List Char)
  | 0, _, _ => none
  | fuel + 1, es, s => do
    let ((path, k), s) ← dottedKey (s.length + 1) s
    let s ← after? '=' s
    let (j, s) ← value fuel (gap s)
    let es ← es.assign path k j
    match gap s with
    | c :: rest =>
      if c = ',' then entries fuel es rest
      else if c = '\x7d' then some (es, rest)
      else none
    | [] => none

end

/-- The tables so far and the path of the one that entries go to. -/
structure Document where
  root : Entries
  current : List String

namespace Document

def entry (d : Document) (s : List Char) : Option (Document × List Char) := do
  let ((path, k), s) ← dottedKey (s.length + 1) s
  let s ← after? '=' s
  let s := gap s
  let (j, s) ← value (s.length + 1) s
  let root ← d.root.descend (Entries.assign path k j) d.current
  some ({ d with root := root }, s)

def header (d : Document) (s : List Char) : Option (Document × List Char) := do
  let ((path, k), s) ← dottedKey (s.length + 1) s
  let s ← after? ']' s
  let root ← d.root.openTable path k
  some (⟨root, path ++ [k]⟩, s)

def elementHeader (d : Document) (s : List Char) : Option (Document × List Char) := do
  let ((path, k), s) ← dottedKey (s.length + 1) s
  let s ← after? ']' s
  let s ← after? ']' s
  let root ← d.root.openElement path k
  some (⟨root, path ++ [k]⟩, s)

def statement (d : Document) (s : List Char) : Option (Document × List Char) :=
  match s with
  | '[' :: '[' :: rest => d.elementHeader rest
  | '[' :: rest => d.header rest
  | s => d.entry s

def statements : Nat → Document → List Char → Option Document
  | 0, _, _ => none
  | fuel + 1, d, s =>
    match blankLines (s.length + 1) s with
    | [] => some d
    | s => do
      let (d, s) ← d.statement s
      match comment s with
      | [] => some d
      | s => (lineEnd? s).bind (statements fuel d)

end Document

def read? (s : List Char) : Option Json :=
  let s := match s with
    | '\uFEFF' :: rest => rest
    | s => s
  (Document.statements (s.length + 1) ⟨[], []⟩ s).map fun d => .obj (members d.root)

end ScrapeRelay.Toml

import ScrapeRelay.Decimal
import ScrapeRelay.Json

/-!
Paths into a settings tree, such as `server.port` or `collectors[0].name`, and laying values over
what a tree holds already: tables are merged, everything else is replaced.
-/

namespace ScrapeRelay.Settings

inductive Step where
  | field (name : String)
  /-- Negative positions count from the end. -/
  | item (position : Int)
  deriving DecidableEq, Repr

abbrev Path := List Step

namespace Path

def isNameChar (c : Char) : Bool :=
  Decimal.isDigit c || ('a' ≤ c && c ≤ 'z') || ('A' ≤ c && c ≤ 'Z') || c == ' ' || c == '_' || c == '-'

def position? (s : List Char) : Option (Int × List Char) :=
  let s := s.dropWhile (· == ' ')
  let (negative, s) := match s with
    | '-' :: rest => (true, rest)
    | s => (false, s)
  let ds := s.takeWhile Decimal.isDigit
  if ds = [] then none
  else
    match (s.dropWhile Decimal.isDigit).dropWhile (· == ' ') with
    | ']' :: rest => some (if negative then -(Decimal.value ds : Int) else Decimal.value ds, rest)
    | _ => none

def steps? : Nat → List Char → Option Path
  | 0, _ => none
  | _ + 1, [] => some []
  | fuel + 1, '.' :: s =>
    let name := s.takeWhile isNameChar
    if name = [] then none
    else (steps? fuel (s.dropWhile isNameChar)).map (.field (String.ofList name) :: ·)
  | fuel + 1, '[' :: s => do
    let (n, s) ← position? s
    let rest ← steps? fuel s
    some (.item n :: rest)
  | _ + 1, _ => none

/-- A text that is no path is a single name. -/
def read (s : String) : Path :=
  let cs := s.toList
  let name := cs.takeWhile isNameChar
  match if name = [] then none else steps? (cs.length + 1) (cs.dropWhile isNameChar) with
  | some rest => .field (String.ofList name) :: rest
  | none => [.field s]

end Path

def members : Json → List (String × Json)
  | .obj ms => ms
  | _ => []

def arrayItems : Json → List Json
  | .arr xs => xs
  | _ => []

def replaceField (name : String) (f : Json → Json) : List (String × Json) → List (String × Json)
  | [] => [(name, f .null)]
  | m :: rest => if m.1 = name then (name, f m.2) :: rest else m :: replaceField name f rest

/-- An array is made long enough for the position, at its end or at its front. -/
def replaceItem (n : Int) (f : Json → Json) (xs : List Json) : List Json :=
  if 0 ≤ n then
    let xs := xs ++ List.replicate (n.toNat + 1 - xs.length) Json.null
    xs.modify n.toNat f
  else if n.natAbs ≤ xs.length then xs.modify (xs.length - n.natAbs) f
  else (List.replicate (n.natAbs - xs.length) Json.null ++ xs).modify 0 f

def change (f : Json → Json) : Path → Json → Json
  | [], j => f j
  | .field name :: rest, j => .obj (replaceField name (change f rest) (members j))
  | .item n :: rest, j => .arr (replaceItem n (change f rest) (arrayItems j))

def isRepeated (name : String) (later : List (String × Json)) : Bool := later.any fun m => m.1 = name

def distinct : List (String × Json) → List (String × Json)
  | [] => []
  | m :: rest => if isRepeated m.1 rest then distinct rest else m :: distinct rest

mutual

def overlay : Json → Json → Json
  | .obj ms, under => .obj (overlayMembers ms (members under))
  | j, _ => j

def overlayMembers : List (String × Json) → List (String × Json) → List (String × Json)
  | [], under => under
  | (name, j) :: rest, under =>
    if isRepeated name rest then overlayMembers rest under
    else overlayMembers rest (replaceField name (overlay j) under)

end

end ScrapeRelay.Settings

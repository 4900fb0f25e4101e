import ScrapeRelay.Json

/-!
The tree of tables that a TOML document builds. A table knows how it came about, because a table may
be opened by a header only once and dotted keys extend only tables made by dotted keys.
-/

namespace ScrapeRelay.Toml

inductive Origin where
  /-- On the way to a table with a header of its own. -/
  | implied
  | header
  | dotted
  deriving DecidableEq, Repr

inductive Node where
  | value (j : Json)
  | table (origin : Origin) (entries : List (String × Node))
  /-- The elements but the last, and the last, which is still open. -/
  | tables (before : List (List (String × Node))) (last : List (String × Node))

abbrev Entries := List (String × Node)

namespace Entries

def replace (k : String) (f : Option Node → Option Node) : Entries → Option Entries
  | [] => (f none).map fun n => [(k, n)]
  | e :: rest =>
    if e.1 = k then (f (some e.2)).map fun n => (k, n) :: rest else (replace k f rest).map (e :: ·)

def descend (f : Entries → Option Entries) : List String → Entries → Option Entries
  | [], es => f es
  | k :: path, es =>
    replace k (fun
      | none => (descend f path []).map (.table .implied)
      | some (.table o es) => (descend f path es).map (.table o)
      | some (.tables before last) => (descend f path last).map (.tables before)
      | some (.value _) => none) es

def extend (f : Entries → Option Entries) : List String → Entries → Option Entries
  | [], es => f es
  | k :: path, es =>
    replace k (fun
      | none => (extend f path []).map (.table .dotted)
      | some (.table .dotted es) => (extend f path es).map (.table .dotted)
      | some (.table .implied es) => if path = [] then none else (extend f path es).map (.table .implied)
      | _ => none) es

def assign (path : List String) (k : String) (j : Json) : Entries → Option Entries :=
  extend (replace k fun
    | none => some (.value j)
    | some _ => none) path

def openTable (path : List String) (k : String) : Entries → Option Entries :=
  descend (replace k fun
    | none => some (.table .header [])
    | some (.table .implied es) => some (.table .header es)
    | some _ => none) path

def openElement (path : List String) (k : String) : Entries → Option Entries :=
  descend (replace k fun
    | none => some (.tables [] [])
    | some (.tables before last) => some (.tables (before ++ [last]) [])
    | some _ => none) path

end Entries

mutual

def Node.toJson : Node → Json
  | .value j => j
  | .table _ es => .obj (members es)
  | .tables before last => .arr (elements before ++ [.obj (members last)])

def members : List (String × Node) → List (String × Json)
  | [] => []
  | (k, n) :: rest => (k, n.toJson) :: members rest

def elements : List (List (String × Node)) → List Json
  | [] => []
  | es :: rest => .obj (members es) :: elements rest

end

end ScrapeRelay.Toml

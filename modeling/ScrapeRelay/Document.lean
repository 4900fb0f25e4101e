import ScrapeRelay.Dict
import ScrapeRelay.Json

/-!
Reading typed values from documents. A record is an object with its fields by name or an array with
its fields by position; unknown fields are passed over. How text, flags and numbers are read is left
to a `Reading`: the strict one takes a leaf of the right type only.
-/

namespace ScrapeRelay.Document

structure Reading where
  text? : Json → Option String
  flag? : Json → Option Bool
  natural? : Json → Option Nat
  real? : Json → Option Float
  choice? : Json → Option String
  /-- Whether an array may be longer than the record. -/
  surplus : Bool

def strict : Reading where
  text?
    | .str s => some s
    | _ => none
  flag?
    | .bool b => some b
    | _ => none
  natural?
    | .num (.int n) => if 0 ≤ n then some n.toNat else none
    | _ => none
  real?
    | .num n => some n.toFloat
    | _ => none
  choice?
    | .str s => some s
    | .obj [(name, .null)] => some name
    | _ => none
  surplus := false

def list? {α : Type} (f : Json → Option α) : Json → Option (List α)
  | .arr items => items.mapM f
  | _ => none

def nullable? {α : Type} (f : Json → Option α) : Json → Option (Option α)
  | .null => some none
  | j => (f j).map some

def word? (r : Reading) (j : Json) : Option UInt64 :=
  (r.natural? j).bind fun n => if n < UInt64.size then some (UInt64.ofNat n) else none

def texts? (r : Reading) : Json → Option (Dict String String)
  | .obj members => (members.mapM fun m => (r.text? m.2).map fun v => (m.1, v)).map Dict.ofList
  | _ => none

structure Fields where
  find? : String → Option Json
  positional : Bool

def fields? (r : Reading) (names : List String) : Json → Option Fields
  | .obj members => some ⟨fun name => Json.last? name members, false⟩
  | .arr items =>
    if items.length ≤ names.length || r.surplus then
      some ⟨fun name => (names.idxOf? name).bind fun i => items[i]?, true⟩
    else none
  | _ => none

namespace Fields

variable {α : Type}

def required (fs : Fields) (name : String) (f : Json → Option α) : Option α := (fs.find? name).bind f

def withDefault (fs : Fields) (name : String) (default : α) (f : Json → Option α) : Option α :=
  match fs.find? name with
  | none => some default
  | some j => f j

/-- Absent only by name: a position cannot be left out. -/
def optional (fs : Fields) (name : String) (f : Json → Option α) : Option (Option α) :=
  match fs.find? name with
  | none => if fs.positional then none else some none
  | some j => nullable? f j

end Fields

end ScrapeRelay.Document

namespace ScrapeRelay.Json

def texts (d : Dict String String) : Json := .obj (d.toList.map fun e => (e.1, .str e.2))

def strings (l : List String) : Json := .arr (l.map .str)

def nullable {α : Type} (f : α → Json) : Option α → Json
  | none => .null
  | some a => f a

end ScrapeRelay.Json

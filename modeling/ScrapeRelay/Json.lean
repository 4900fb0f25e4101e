/-!
JSON values. A number is a whole number in the range of a 64-bit word, signed or unsigned, or a
floating-point number; the members of an object keep the order of the text, and of several members
with one name the last one counts.
-/

namespace ScrapeRelay

inductive Json.Number where
  | int (n : Int)
  | real (x : Float)
  deriving DecidableEq

inductive Json where
  | null
  | bool (b : Bool)
  | num (n : Json.Number)
  | str (s : String)
  | arr (items : List Json)
  | obj (members : List (String × Json))

namespace Json

instance : Inhabited Json := ⟨.null⟩

def Number.toFloat : Number → Float
  | .int n => Float.ofInt n
  | .real x => x

def last? (name : String) : List (String × Json) → Option Json
  | [] => none
  | (k, v) :: rest =>
    match last? name rest with
    | some found => some found
    | none => if k = name then some v else none

def get? (name : String) : Json → Option Json
  | obj members => last? name members
  | _ => none

def nat (n : Nat) : Json := .num (.int n)

end Json

end ScrapeRelay

import ScrapeRelay.Exposition.Sample
import ScrapeRelay.Text.Blank

/-!
The lines of an exposition: samples, the two directives `TYPE` and `HELP`, and lines that say nothing.
-/

namespace ScrapeRelay.Exposition

inductive Family.Kind where
  | counter
  | gauge
  | untyped
  | summary
  | histogram
  deriving DecidableEq, Repr

namespace Family.Kind

def name : Kind → String
  | counter => "counter"
  | gauge => "gauge"
  | untyped => "untyped"
  | summary => "summary"
  | histogram => "histogram"

def ofName? (s : List Char) : Option Kind :=
  [counter, gauge, untyped, summary, histogram].find? fun k => k.name.toList = s

end Family.Kind

inductive Line where
  | silent
  | kind (family : String) (kind : Family.Kind)
  | sample (s : Sample)
  deriving DecidableEq

namespace Line

def subject (directive : String) : List (List Char) → Except Fault (List Char × List (List Char))
  | [] => .error (.missingName directive)
  | name :: rest => if isMetricName name then .ok (name, rest) else .error (.invalidName name)

/-- The words of a comment. One that starts with neither directive is free text. -/
def comment : List (List Char) → Except Fault Line
  | [] => .ok silent
  | word :: rest =>
    if word = ['T', 'Y', 'P', 'E'] then do
      match ← subject "TYPE" rest with
      | (name, []) => .error (.missingKind name)
      | (name, kindName :: _) =>
        match Family.Kind.ofName? kindName with
        | some k => .ok (kind (String.ofList name) k)
        | none => .error (.unknownKind kindName)
    else if word = ['H', 'E', 'L', 'P'] then do
      let _ ← subject "HELP" rest
      .ok silent
    else .ok silent

def read (s : List Char) : Except Fault Line :=
  match Text.trim s with
  | [] => .ok silent
  | '#' :: rest => comment (Text.words rest)
  | t => (Sample.read t).map sample

end Line

end ScrapeRelay.Exposition

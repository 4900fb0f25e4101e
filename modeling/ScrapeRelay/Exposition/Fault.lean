import ScrapeRelay.Text.Quoted

/-!
What can be wrong with an exposition, and where.
-/

namespace ScrapeRelay.Exposition

inductive Fault where
  | metricNameExpected (line : List Char)
  | labelNameExpected (rest : List Char)
  | expected (want : Char) (found : Option Char)
  | invalidEscape (c : Char)
  | unterminatedValue
  | duplicateLabel (name : List Char)
  | separatorExpected (found : Char)
  | unterminatedLabels
  | missingValue (name : List Char)
  | invalidValue (token : List Char)
  | invalidTimestamp (token : List Char)
  | trailingText (rest : List Char)
  | missingName (directive : String)
  | invalidName (name : List Char)
  | missingKind (name : List Char)
  | unknownKind (word : List Char)
  | secondType (name : List Char)
  | lateType (name : List Char)
  | missingBound (family : List Char) (label : String)
  | invalidBound (label : String) (value : List Char)
  deriving DecidableEq, Repr

namespace Fault

open Text (quoted quotedChar)

def text : Fault → String
  | metricNameExpected line => s!"invalid metric name in {quoted line}"
  | labelNameExpected rest => s!"invalid label name in {quoted rest}"
  | expected want (some c) => s!"expected {quotedChar want}, found {quotedChar c}"
  | expected want none => s!"expected {quotedChar want}, found end of line"
  | invalidEscape c => "invalid escape sequence \\" ++ c.toString
  | unterminatedValue => "unterminated label value"
  | duplicateLabel name => s!"duplicate label name {quoted name}"
  | separatorExpected c => "expected ',' or '\x7d', found " ++ quotedChar c
  | unterminatedLabels => "unterminated label set"
  | missingValue name => s!"missing value for {quoted name}"
  | invalidValue token => s!"invalid value {quoted token}"
  | invalidTimestamp token => s!"invalid timestamp {quoted token}"
  | trailingText rest => s!"unexpected trailing text {quoted rest}"
  | missingName directive => s!"{directive} line without metric name"
  | invalidName name => s!"invalid metric name {quoted name}"
  | missingKind name => s!"TYPE line for {quoted name} without type"
  | unknownKind word => s!"unknown metric type {quoted word}"
  | secondType name => s!"second TYPE line for metric name {quoted name}"
  | lateType name => s!"TYPE line for {quoted name} must precede its samples"
  | missingBound family label => s!"{quoted family} sample without {quoted label.toList} label"
  | invalidBound label value => s!"invalid {quoted label.toList} label value {quoted value}"

end Fault

/-- A fault and the number of its line; lines count from 1. -/
structure Error where
  line : Nat
  fault : Fault
  deriving DecidableEq, Repr

def Error.message (e : Error) : String := s!"line {e.line}: {e.fault.text}"

end ScrapeRelay.Exposition

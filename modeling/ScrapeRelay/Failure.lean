/-!
The failures that the relay reports, with their messages.
-/

namespace ScrapeRelay

inductive Failure where
  | list (text : String)
  /-- There is no client to ask with, no response came, or only a part of one. -/
  | scrape
  | scrapeStatus (url : String) (status : Nat)
  | parse (line : Nat) (text : String)
  | encode (text : String)
  | sink (text : String)
  | notFound (text : String)
  | validation (problems : List String)
  | config (text : String)
  | io (text : String)
  deriving DecidableEq, Repr

/-- A failed scrape has no fixed message. -/
def Failure.message? : Failure → Option String
  | list text => some s!"List error: {text}"
  | scrape => none
  | scrapeStatus url status => some s!"Scrape error: unexpected status {status} from {url}"
  | parse line text => some s!"Parse error: line {line}: {text}"
  | encode text => some s!"Encode error: {text}"
  | sink text => some s!"Sink error: {text}"
  | notFound text => some s!"Not found: {text}"
  | validation problems => some ("Validation error: " ++ "; ".intercalate problems)
  | config text => some s!"Configuration error: {text}"
  | io text => some s!"IO error: {text}"

end ScrapeRelay

import ScrapeRelay.Failure
import ScrapeRelay.Text.Utf8

/-!
What answers on the network: a request for an address has a response or none.
-/

namespace ScrapeRelay

structure Network.Response where
  status : Nat
  body : List UInt8
  complete : Bool
  deriving DecidableEq, Repr

/-- The response to a request for an address, if one arrives in time. -/
abbrev Network := String → Option Network.Response

namespace Network

def silent : Network := fun _ => none

def fetch (n : Network) (url : String) : Except Failure String :=
  match n url with
  | none => .error .scrape
  | some r =>
    if r.status < 200 ∨ 300 ≤ r.status then .error (.scrapeStatus url r.status)
    else if r.complete then .ok (Text.Utf8.decode r.body)
    else .error .scrape

end Network

end ScrapeRelay

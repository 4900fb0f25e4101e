import ScrapeRelay.Status.Board

/-!
The pages about the relay itself: a landing page, the gauges, the health and the snapshot.
-/

namespace ScrapeRelay.Status

structure Response where
  status : Nat
  contentType : Option String
  body : String
  deriving DecidableEq, Repr

namespace Response

def html (body : String) : Response := ⟨200, some "text/html; charset=utf-8", body⟩
def plain (status : Nat) (body : String) : Response := ⟨status, some "text/plain; charset=utf-8", body⟩
def json (j : Json) : Response := ⟨200, some "application/json", j.text⟩
def bare (status : Nat) : Response := ⟨status, none, ""⟩

end Response

def landing : String :=
  "<html>\n<head><title>Strata Collector</title></head>\n<body>\n<h1>Strata Metrics Collector</h1>\n" ++
    "<p><a href=\"/metrics\">Metrics</a></p>\n<p><a href=\"/health\">Health</a></p>\n" ++
    "<p><a href=\"/status\">Status</a></p>\n</body>\n</html>"

namespace Board

def health (b : Board) : Response :=
  if 0 < b.up then .plain 200 "OK" else .plain 503 "Collector service not running"

def page? (b : Board) (path : String) : Option Response :=
  if path = "/" then some (.html landing)
  else if path = "/metrics" then some (.plain 200 b.render)
  else if path = "/health" then some b.health
  else if path = "/status" then some (.json b.snapshot)
  else none

def pathOf (target : String) : String :=
  String.ofList (target.toList.takeWhile fun c => c != '?' && c != '#')

def respond (b : Board) (method target : String) : Response :=
  match b.page? (pathOf target) with
  | none => .bare 404
  | some r =>
    if method = "GET" then r
    else if method = "HEAD" then { r with body := "" }
    else .bare 405

end Board

end ScrapeRelay.Status

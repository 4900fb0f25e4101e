import ScrapeRelay.Failure

/-!
A stream that takes one line per payload. When the reading end has gone, what was written is lost and
writing fails; closing never does.
-/

namespace ScrapeRelay.Sink

structure Lines where
  written : String
  readable : Bool
  deriving DecidableEq, Repr

namespace Lines

def start : Lines := ⟨"", true⟩

def send (s : Lines) (payload : String) : Except Failure Lines :=
  if s.readable then .ok { s with written := s.written ++ payload ++ "\n" } else .error (.io "broken pipe")

def close (_ : Lines) : Except Failure Unit := .ok ()

def hangUp (_ : Lines) : Lines := ⟨"", false⟩

end Lines

end ScrapeRelay.Sink

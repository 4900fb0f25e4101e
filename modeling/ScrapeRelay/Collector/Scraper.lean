import ScrapeRelay.Collector.Spec

/-!
Setting up the scraping side of a pool. The files for TLS are read one after the other, and what they hold is
looked into before the next; the authority comes first, and a certificate goes together with its key. Then the
client is made.
-/

namespace ScrapeRelay.Collector

/-- What a client has besides the time limit that all clients share. -/
structure Client where
  authority : Option (List UInt8)
  identity : Option (List UInt8 × List UInt8)
  insecure : Bool
  deriving DecidableEq

def Client.plain : Client := ⟨none, none, false⟩

/-- What clients are made with: the files, which cannot be read for some reason, and the tests that the contents
of a file, those of a certificate and its key, and a whole client have to pass. -/
structure Kit where
  read : String → Except String (List UInt8)
  isAuthority : List UInt8 → Bool
  isIdentity : List UInt8 → List UInt8 → Bool
  isClient : Client → Bool

namespace Kit

def file (kit : Kit) (path : String) : Except Failure (List UInt8) := (kit.read path).mapError .io

def test (passed : Bool) : Except Failure Unit := if passed then .ok () else .error .scrape

def authority (kit : Kit) (path : String) : Except Failure (List UInt8) := do
  let authority ← kit.file path
  test (kit.isAuthority authority)
  pure authority

def identity (kit : Kit) (cert key : String) : Except Failure (List UInt8 × List UInt8) := do
  let cert ← kit.file cert
  let key ← kit.file key
  test (kit.isIdentity cert key)
  pure (cert, key)

end Kit

def Tls.client (kit : Kit) (t : Tls) : Except Failure Client := do
  let authority ← t.ca.mapM kit.authority
  let identity ←
    match t.cert, t.key with
    | some cert, some key => some <$> kit.identity cert key
    | none, none => pure none
    | _, _ => .error (.config "tls.cert and tls.key must be set together")
  pure ⟨authority, identity, t.insecure⟩

def prepareScraper (kit : Kit) (tls : Option Tls) : Except Failure Unit := do
  let client ← (tls.map (Tls.client kit)).getD (pure .plain)
  Kit.test (kit.isClient client)

/-- Which files can be read. -/
abbrev Files := String → Bool

/-- Where all passes, a file can still be missing. -/
def Files.kit (files : Files) : Kit where
  read path := if files path then .ok [] else .error "No such file or directory (os error 2)"
  isAuthority _ := true
  isIdentity _ _ := true
  isClient _ := true

instance : Coe Files Kit := ⟨Files.kit⟩

end ScrapeRelay.Collector

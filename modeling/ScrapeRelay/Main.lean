import ScrapeRelay.Service

/-!
The command line of the service. It reads the settings, starts the relay and then answers requests: each
line of the input holds a method and a path, each answer is a page. At the end of the input the relay is
shut down.
-/

namespace ScrapeRelay.Main

structure Options where
  config : String
  port : Option String
  address : Option String

def read (o : Options) : List String → Except String Options
  | [] => .ok o
  | [name] => .error s!"unexpected argument or missing value: {name}"
  | name :: value :: rest =>
    if name = "--config" ∨ name = "-c" then read { o with config := value } rest
    else if name = "--port" ∨ name = "-p" then read { o with port := some value } rest
    else if name = "--addr" ∨ name = "-a" then read { o with address := some value } rest
    else .error s!"unexpected argument: {name}"

def override (o : Options) (s : Settings) : Except String Settings := do
  let s := { s with address := o.address.getD s.address }
  match o.port with
  | none => pure s
  | some text =>
    match text.toNat? with
    | some port => if port < UInt16.size then pure { s with port } else .error s!"invalid port: {text}"
    | none => .error s!"invalid port: {text}"

def source (path text : String) : Settings.Source := if path.endsWith ".json" then .json text else .toml text

def surroundings : Service.Surroundings :=
  ⟨Collector.Files.kit fun _ => false, fun _ => false, fun _ _ => true, .silent⟩

partial def answer (began : Nat) (r : Relay) (input output : IO.FS.Stream) : IO Relay := do
  let line ← input.getLine
  if line.isEmpty then return r
  let r := (r.setClock ((← IO.monoMsNow) - began)).settle
  match (line.trimAscii.toString.splitOn " ").filter (· ≠ "") with
  | method :: path :: _ =>
    let page := r.board.respond method path
    output.putStrLn s!"{page.status}"
    output.putStrLn page.body
    output.flush
  | _ => pure ()
  answer began r input output

def fail (message : String) : IO UInt32 := do
  (← IO.getStderr).putStrLn message
  return 1

def run (args : List String) : IO UInt32 := do
  let options : Options := ⟨"config/Default.toml", ← IO.getEnv "STRATA_PORT", ← IO.getEnv "STRATA_ADDR"⟩
  match read options args with
  | .error message => fail message
  | .ok options =>
    let file ←
      try pure (some (source options.config (← IO.FS.readFile options.config)))
      catch _ => pure none
    match Settings.load file [] with
    | .error e => fail e.text
    | .ok settings =>
      match override options settings with
      | .error message => fail message
      | .ok settings =>
        match Service.start surroundings settings with
        | .error f => fail (f.message?.getD "")
        | .ok r =>
          let r ← answer (← IO.monoMsNow) r (← IO.getStdin) (← IO.getStdout)
          let _ := Service.stop r
          return 0

end ScrapeRelay.Main

def main (args : List String) : IO UInt32 := ScrapeRelay.Main.run args

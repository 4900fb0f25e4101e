import ScrapeRelay.Exposition.Line
import ScrapeRelay.Metric
import ScrapeRelay.Text.Lines

/-!
Metric families in the order of their first mention. A sample is owned by the family of its own name
if that one has a type, else by the histogram or summary whose series it is, else by the family of
its own name. Owned samples become metrics: a sum or a count of a summary or histogram is left out.
-/

namespace ScrapeRelay.Exposition

/-- Samples stand with the numbers of their lines. -/
structure Family where
  name : String
  kind : Option Family.Kind
  samples : List (Nat × Sample)
  deriving DecidableEq

abbrev Families := List Family

namespace Families

def position? (fs : Families) (name : String) : Option Nat := fs.findIdx? fun f => f.name = name

def find (fs : Families) (name : String) : Option Family := fs.find? fun f => f.name = name

def kind? (fs : Families) (name : String) : Option Family.Kind := (fs.find name).bind (·.kind)

def owns : Option Family.Kind → String → Bool
  | some .histogram, _ => true
  | some .summary, suffix => suffix != "_bucket"
  | _, _ => false

def base? (suffix name : String) : Option String :=
  if suffix.toList.isSuffixOf name.toList then
    some (String.ofList (name.toList.take (name.toList.length - suffix.toList.length)))
  else none

def owner (fs : Families) (name : String) : String :=
  if (fs.kind? name).isSome then name
  else
    (["_bucket", "_sum", "_count"].findSome? fun suffix =>
      (base? suffix name).filter fun base => owns (fs.kind? base) suffix).getD name

/-- Applies `f` to the family of this name; a name without a family gets one at the end. -/
def update (name : String) (f : Family → Family) : Families → Families
  | [] => [f ⟨name, none, []⟩]
  | g :: rest => if g.name = name then f g :: rest else g :: update name f rest

/-- A family gets its type once and before its first sample. -/
def declare (fs : Families) (name : String) (kind : Family.Kind) : Except Fault Families :=
  match fs.find name with
  | some ⟨_, some _, _⟩ => .error (.secondType name.toList)
  | some ⟨_, none, _ :: _⟩ => .error (.lateType name.toList)
  | _ => .ok (fs.update name fun f => { f with kind := some kind })

def collect (fs : Families) (line : Nat) (s : Sample) : Families :=
  fs.update (fs.owner s.name) fun f => { f with samples := f.samples ++ [(line, s)] }

def add (fs : Families) (line : Nat) : Line → Except Fault Families
  | .silent => .ok fs
  | .kind name k => fs.declare name k
  | .sample s => .ok (fs.collect line s)

def read (fs : Families) (n : Nat) : List (List Char) → Except Error Families
  | [] => .ok fs
  | l :: rest =>
    match Line.read l >>= fs.add n with
    | .error f => .error ⟨n, f⟩
    | .ok fs => read fs (n + 1) rest

end Families

namespace Family

structure Context where
  timestamp : Timestamp
  tags : Dict String String

/-- The labels of a sample without the bound label replace given tags of the same name. -/
def tagsOf (given : Dict String String) (bound : String) (s : Sample) : Dict String String :=
  s.labels.foldl (fun tags l => if l.1 = bound then tags else tags.insert l.1 l.2) given

def scalar? : Option Kind → Option Metric.Kind
  | some .counter => some .counter
  | some .untyped => some .untyped
  | some .gauge | none => some .gauge
  | some .summary | some .histogram => none

def scalarMetric (c : Context) (name : String) (kind : Metric.Kind) (s : Sample) : Option Metric :=
  if s.value.isNaN then none
  else
    some ⟨name, Dict.ofList ((kind.entry?.map fun entry => (entry, s.value)).toList), tagsOf c.tags "" s,
      c.timestamp, kind⟩

structure Bounded where
  series : String
  label : String
  tag : String
  kind : Metric.Kind
  skipsNaN : Bool

def bounded (name : String) (histogram : Bool) : Bounded :=
  if histogram then ⟨name ++ "_bucket", "le", "bucket", .histogram, false⟩
  else ⟨name, "quantile", "quantile", .summary, true⟩

def bound (b : Bounded) (name : String) (s : Sample) : Except Fault Float :=
  match s.label? b.label with
  | none => .error (.missingBound name.toList b.label)
  | some raw =>
    match number? raw.toList with
    | none => .error (.invalidBound b.label raw.toList)
    | some x => .ok x

def boundedMetric (c : Context) (name : String) (b : Bounded) (s : Sample) : Except Fault (Option Metric) :=
  if s.name ≠ b.series then .ok none
  else
    (bound b name s).map fun x =>
      if b.skipsNaN && s.value.isNaN then none
      else
        some ⟨name, Dict.ofList [(boundText x, s.value)],
          (tagsOf c.tags b.label s).insert b.tag (boundText x), c.timestamp, b.kind⟩

def metric (c : Context) (f : Family) (s : Sample) : Except Fault (Option Metric) :=
  match scalar? f.kind with
  | some kind => .ok (scalarMetric c f.name kind s)
  | none => boundedMetric c f.name (bounded f.name (f.kind = some .histogram)) s

def metricsOf (c : Context) (f : Family) : List (Nat × Sample) → Except Error (List Metric)
  | [] => .ok []
  | (line, s) :: rest =>
    match f.metric c s with
    | .error fault => .error ⟨line, fault⟩
    | .ok m => (metricsOf c f rest).map (m.toList ++ ·)

def metrics (c : Context) (f : Family) : Except Error (List Metric) := metricsOf c f f.samples

end Family

def families (body : String) : Except Error Families := Families.read [] 1 (Text.lines body.toList)

def flatten (c : Family.Context) : Families → Except Error (List Metric)
  | [] => .ok []
  | f :: rest => do
    let ms ← f.metrics c
    let more ← flatten c rest
    pure (ms ++ more)

def read (timestamp : Timestamp) (tags : Dict String String) (body : String) : Except Error (List Metric) :=
  families body >>= flatten ⟨timestamp, tags⟩

end ScrapeRelay.Exposition

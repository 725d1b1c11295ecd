/-
The configuration of a scoring run, as a value and as a TOML document.

A document must name the two videos. Everything else may be left out and
has a default: the whole table of the stream and of the stats, and single
keys in them, save that a stream which is given has both its axes. Keys
that have no meaning here are passed over, whatever their value, but the
value must be one that can be read.

A table may also be given as an array of its values in their order. What
follows the last value that is given has its default, and elements beyond
the last key are not looked at.
-/
import AdditiveDetail.Path
import AdditiveDetail.Scoring.Config
import AdditiveDetail.Stats
import AdditiveDetail.Toml.Reader

namespace AdditiveDetail

-- one power on naturals, whatever else is imported
attribute [local instance(high)] instPowNat

/-- Where stats lines go, and what they call the score. -/
structure StatsConfig where
  /-- A path, or `-` for standard output; nothing for no lines at all. -/
  file : Option String
  label : Stats.Label
  deriving DecidableEq

instance : Inhabited StatsConfig := ⟨⟨none, default⟩⟩

/-- Whether two say the same, paths compared as paths. -/
def StatsConfig.same (c d : StatsConfig) : Bool :=
  c.label = d.label &&
    match c.file, d.file with
    | some p, some q => Path.same p q
    | none, none => true
    | _, _ => false

/-- All that a run needs to know. -/
structure RunConfig where
  reference : String
  distorted : String
  parallel : Bool
  stream : Config
  stats : StatsConfig
  deriving DecidableEq

namespace RunConfig

instance : Inhabited RunConfig where
  default := {
    reference := "reference.yuv"
    distorted := "distorted.yuv"
    parallel := false
    stream := default
    stats := default }

/-- Whether two configurations say the same, paths compared as paths. -/
def same (c d : RunConfig) : Bool :=
  Path.same c.reference d.reference && Path.same c.distorted d.distorted
    && c.parallel = d.parallel && c.stream = d.stream
    && c.stats.same d.stats

open Toml (Entries Value)

-- =================================================================== reading

/-- A value, if there is one, must be of its kind; where there is none the
default stands. -/
def orDefault {α : Type} (value : Option Value) (kind : Value → Option α)
    (default : α) : Option α :=
  match value with
  | some v => kind v
  | none => some default

def string? : Value → Option String
  | .string s => some s
  | _ => none

def boolean? : Value → Option Bool
  | .boolean b => some b
  | _ => none

/-- A size is a word of 64 bits. -/
def size? : Value → Option Nat
  | .integer i => if 0 ≤ i ∧ i < 2 ^ (64 : Nat) then some i.toNat else none
  | _ => none

/-- A name is a string, or the only key of a table, with nothing in it. -/
def name? : Value → Option String
  | .string s => some s
  | .table _ entries =>
      match entries.only? with
      | some (key, .table _ .empty) => some key
      | some (key, .array []) => some key
      | _ => none
  | _ => none

def format? (v : Value) : Option PixelFormat :=
  name? v >>= PixelFormat.ofName?

def label? (v : Value) : Option Stats.Label :=
  name? v >>= Stats.Label.ofText?

/-- A table, if all that it gives to other keys than these can be read. -/
def knownFields? (keys : List String) (t : Entries) : Option Entries :=
  if t.all fun key v => keys.contains key || v.isReadable then some t
  else none

/-- What a value gives to the keys of a table, which have an order, and
whether it does so by key. -/
def fields? (keys : List String) (v : Value) :
    Option (Bool × (String → Option Value)) :=
  match v with
  | .table _ entries => (knownFields? keys entries).map fun t => (true, t.get?)
  | .moment => some (true, fun _ => none)
  | v => v.elements?.map fun elements =>
      (false, fun key => (keys.zip elements).lookup key)

def stream? (v : Value) : Option Config := do
  let (_, field) ← fields? ["width", "height", "pixel_format"] v
  let width ← field "width" >>= size?
  let height ← field "height" >>= size?
  let format ← orDefault (field "pixel_format") format? default
  return { dims := { width, height }, format }

/-- A file may be left out by key, but not in front of a label. -/
def stats? (v : Value) : Option StatsConfig := do
  let (byKey, field) ← fields? ["file", "label"] v
  let file ← match field "file" with
    | some v => (string? v).map some
    | none => if byKey then some none else none
  let label ← orDefault (field "label") label? default
  return { file, label }

/-- The configuration in a table. -/
def ofEntries? (t : Entries) : Option RunConfig := do
  let t ← knownFields?
    ["reference", "distorted", "parallel", "adm", "stats"] t
  let reference ← t.get? "reference" >>= string?
  let distorted ← t.get? "distorted" >>= string?
  let parallel ← orDefault (t.get? "parallel") boolean? false
  let stream ← orDefault (t.get? "adm") stream? default
  let stats ← orDefault (t.get? "stats") stats? default
  return { reference, distorted, parallel, stream, stats }

/-- The configuration that a document holds. -/
def ofText? (text : String) : Option RunConfig :=
  Toml.read? text >>= ofEntries?

-- =================================================================== writing

/-- A line that gives a value to a key. -/
def keyLine (key value : String) : String := key ++ " = " ++ value ++ "\n"

/-- A header, with a blank line in front of it. -/
def headerLine (key : String) : String := "\n[" ++ key ++ "]\n"

def booleanText (b : Bool) : String := if b then "true" else "false"

/-- The whole of a configuration as a document, defaults included. -/
def toText (c : RunConfig) : String :=
  keyLine "reference" (Toml.writeString c.reference)
    ++ keyLine "distorted" (Toml.writeString c.distorted)
    ++ keyLine "parallel" (booleanText c.parallel)
    ++ headerLine "adm"
    ++ keyLine "width" (toString c.stream.dims.width)
    ++ keyLine "height" (toString c.stream.dims.height)
    ++ keyLine "pixel_format" (Toml.writeString c.stream.format.name)
    ++ headerLine "stats"
    ++ (match c.stats.file with
      | some file => keyLine "file" (Toml.writeString file)
      | none => "")
    ++ keyLine "label" (Toml.writeString c.stats.label.text)

end RunConfig

end AdditiveDetail

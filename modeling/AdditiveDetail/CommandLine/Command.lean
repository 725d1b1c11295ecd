/-
The commands of the program and their options. A command line either
names one command with all that it needs, or is refused with a cause.
-/
import AdditiveDetail.CommandLine.Grammar
import AdditiveDetail.Stats
import AdditiveDetail.Video.PixelFormat

namespace AdditiveDetail

-- one power on naturals, whatever else is imported
attribute [local instance(high)] instPowNat

namespace CommandLine

structure ScoreOptions where
  reference : Option String
  distorted : Option String
  /-- A document that replaces the options on streams and stats. -/
  config : Option String
  dims : Dims
  format : PixelFormat
  statsFile : Option String
  statsLabel : Stats.Label
  parallel : Bool
  threads : Option Nat
  perFrame : Bool

structure InfoOptions where
  file : String
  dims : Dims
  format : PixelFormat

inductive Command where
  | score (options : ScoreOptions)
  | info (options : InfoOptions)
  | config (output : Option String)

-- ==================================================================== values

/-- A count: decimal digits, perhaps behind a plus sign, for a word of 64
bits. -/
def count? (text : String) : Option Nat :=
  let digits := match text.toList with
    | '+' :: rest => rest
    | s => s
  if digits.isEmpty || !digits.all Char.isDigit then none
  else
    let n := digits.foldl (fun n c => 10 * n + (c.toNat - '0'.toNat)) 0
    if n < 2 ^ (64 : Nat) then some n else none

/-- A value that a reader must accept. -/
def readable {α : Type} (read? : String → Option α) : Check := fun text =>
  if (read? text).isSome then none else some .unreadableValue

def isPath : Check := fun text =>
  if text.isEmpty then some .invalidValue else none

def isLabel : Check := fun text =>
  if (Stats.Label.ofText? text).isSome then none else some .invalidValue

-- ================================================================== grammars

def flag (long : String) : OptionSpec := ⟨long, none, .flag⟩

def value (long : String) (check : Check) : OptionSpec :=
  ⟨long, none, .value check⟩

/-- Options that every command has. -/
def sharedOptions (topic : Topic) : List OptionSpec :=
  [⟨"verbose", some 'v', .flag⟩, ⟨"help", some 'h', .help topic⟩]

def formatOption : OptionSpec :=
  value "format" (readable PixelFormat.ofText?)

def topGrammar : Grammar where
  options := sharedOptions .program ++ [⟨"version", some 'V', .version⟩]
  words := []
  required := []
  commands := ["score", "info", "config", "help"]

def scoreGrammar : Grammar where
  options := sharedOptions .score ++ [value "config" isPath,
    value "width" (readable count?), value "height" (readable count?),
    formatOption, value "stats-file" isPath, value "stats-label" isLabel,
    flag "parallel", value "threads" (readable count?), flag "per-frame"]
  words := [("reference", isPath), ("distorted", isPath)]
  required := []
  commands := []

def infoGrammar : Grammar where
  options := sharedOptions .info ++ [value "width" (readable count?),
    value "height" (readable count?), formatOption]
  words := [("file", isPath)]
  required := ["file", "width", "height"]
  commands := []

def configGrammar : Grammar where
  options := sharedOptions .config ++ [⟨"output", some 'o', .value isPath⟩]
  words := []
  required := []
  commands := []

-- =================================================================== reading

/-- The count given to a name, or the default. -/
def countOf (g : Given) (name : String) (default : Nat) : Nat :=
  ((g.lookup name).bind count?).getD default

def formatOf (g : Given) : PixelFormat :=
  ((g.lookup "format").bind PixelFormat.ofText?).getD default

def hasFlag (g : Given) (name : String) : Bool := (g.lookup name).isSome

def scoreOptions (g : Given) : ScoreOptions where
  reference := g.lookup "reference"
  distorted := g.lookup "distorted"
  config := g.lookup "config"
  dims := ⟨countOf g "width" 1920, countOf g "height" 1080⟩
  format := formatOf g
  statsFile := g.lookup "stats-file"
  statsLabel := ((g.lookup "stats-label").bind Stats.Label.ofText?).getD default
  parallel := hasFlag g "parallel"
  threads := (g.lookup "threads").bind count?
  perFrame := hasFlag g "per-frame"

def infoOptions (g : Given) : InfoOptions where
  file := (g.lookup "file").getD ""
  dims := ⟨countOf g "width" 0, countOf g "height" 0⟩
  format := formatOf g

/-- Read the arguments of a command that has no commands of its own. -/
def readCommand (g : Grammar) (arguments : List String) :
    Except UsageError Given := do
  let (s, _) ← g.readArguments .start arguments
  g.finish s

/-- The topic that a command's name stands for. -/
def topic? : String → Option Topic
  | "score" => some .score
  | "info" => some .info
  | "config" => some .config
  | "help" => some .help
  | _ => none

/-- Help is given on the program or on one of its commands. -/
def readHelp : List String → UsageError
  | [] => .helpAsked .program true
  | [name] =>
      match topic? name with
      | some topic => .helpAsked topic true
      | none => .unknownCommand
  | _ => .unknownCommand

/-- The command that a command line asks for. -/
def Command.ofArguments (arguments : List String) :
    Except UsageError Command := do
  let (s, next) ← topGrammar.readArguments .start arguments
  match next with
  | some ("score", rest) =>
      return .score (scoreOptions (← readCommand scoreGrammar rest))
  | some ("info", rest) =>
      return .info (infoOptions (← readCommand infoGrammar rest))
  | some ("config", rest) =>
      return .config ((← readCommand configGrammar rest).lookup "output")
  | some (_, rest) => throw (readHelp rest)
  | none =>
      let _ ← topGrammar.finish s
      throw .missingCommand

end CommandLine

end AdditiveDetail

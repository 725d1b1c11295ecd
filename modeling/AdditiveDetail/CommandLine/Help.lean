/-
The text of help. A page says what a command is for and how it is called,
and lists what can be given to it, every list in a column of names beside
a column of texts.

# Two forms

The short form puts a text beside its name, unless the names are wide and
some text would run over the edge of the page: then every text of that
list stands on a line of its own, below its name. The long form always
does so, sets entries apart, and says what each allowed value means. Only
a page with such meanings has a long form.
-/
import AdditiveDetail.CommandLine.Grammar
import AdditiveDetail.CommandLine.Report

namespace AdditiveDetail

namespace CommandLine

/-- A value that an option allows, and what it means where that is told. -/
structure AllowedValue where
  name : String
  meaning : Option String

/-- Something that can be given, as it is written and what it does. -/
structure HelpEntry where
  label : String
  text : String
  /-- What stands where nothing is given. -/
  byDefault : Option String := none
  allowed : List AllowedValue := []

/-- Help on one command. -/
structure HelpPage where
  about : String
  usage : String
  lists : List (String × List HelpEntry)

-- =================================================================== entries

namespace HelpEntry

/-- Whether the meaning of a value is told. -/
def explains (e : HelpEntry) : Bool := e.allowed.any (·.meaning.isSome)

/-- What is noted behind a text, in brackets. -/
def notes (e : HelpEntry) (long : Bool) : List String :=
  let preset := e.byDefault.toList.map fun v => "[default: " ++ v ++ "]"
  if e.allowed.isEmpty || (long && e.explains) then preset
  else
    preset ++ ["[possible values: "
      ++ ", ".intercalate (e.allowed.map (·.name)) ++ "]"]

/-- Where a text starts that has a line of its own. -/
def textColumn : Nat := 10

/-- The start of a new line at the column of texts. -/
def newLine : String := "\n".pushn ' ' textColumn

/-- Allowed values with their meanings, one to a line. -/
def meanings (e : HelpEntry) : String :=
  let names := e.allowed.map (·.name.length)
  let width := names.foldl max 0
  let line (v : AllowedValue) : String :=
    match v.meaning with
    | some text => padRight (width + 2) (v.name ++ ":") ++ text
    | none => v.name
  "\n" ++ newLine ++ "Possible values:"
    ++ String.join (e.allowed.map fun v => newLine ++ "- " ++ line v)

/-- An entry in the short form, its text in a column or below. -/
def short (e : HelpEntry) (width : Nat) (below : Bool) : String :=
  let text := " ".intercalate (e.text :: e.notes false)
  if below then "  " ++ e.label ++ newLine ++ text
  else "  " ++ padRight (width + 2) e.label ++ text

/-- An entry in the long form. Notes are a paragraph of their own. -/
def long (e : HelpEntry) : String :=
  let notes := e.notes true
  let lines := if notes.isEmpty then [e.text] else e.text :: "" :: notes
  "  " ++ e.label ++ newLine ++ newLine.intercalate lines
    ++ (if e.explains then e.meanings else "")

/-- Characters of a line on the page. -/
def pageWidth : Nat := 100

/-- Whether a text beside a label of this width would run over the edge of
the page, and the labels leave it little room. -/
def runsOver (e : HelpEntry) (width : Nat) : Bool :=
  let taken := width + 12
  let length := e.text.length + (" ".intercalate (e.notes false)).length
  40 < taken && taken ≤ pageWidth && pageWidth - taken < length

end HelpEntry

-- ===================================================================== pages

namespace HelpPage

/-- Whether a page has a long form. -/
def explains (p : HelpPage) : Bool :=
  p.lists.any fun l => l.2.any HelpEntry.explains

def listText (isLong : Bool) (title : String) (entries : List HelpEntry) :
    String :=
  let width := (entries.map (·.label.length)).foldl max 0
  let below := entries.any (·.runsOver width)
  title ++ ":\n" ++
    if isLong then "\n\n".intercalate (entries.map HelpEntry.long)
    else "\n".intercalate (entries.map (·.short width below))

def text (p : HelpPage) (isLong : Bool) : String :=
  let isLong := isLong && p.explains
  "\n\n".intercalate (p.about :: ("Usage: " ++ p.usage)
    :: p.lists.map fun l => listText isLong l.1 l.2) ++ "\n"

end HelpPage

-- ============================================================ the program's

namespace HelpEntry

def verbose : HelpEntry where
  label := "-v, --verbose"
  text := "Enable verbose output"

def help : HelpEntry where
  label := "-h, --help"
  text := "Print help"

/-- The help option of a page with two forms names the other one. -/
def helpOf (isLong : Bool) : HelpEntry where
  label := "-h, --help"
  text :=
    if isLong then "Print help (see a summary with '-h')"
    else "Print help (see more with '--help')"

def version : HelpEntry where
  label := "-V, --version"
  text := "Print version"

/-- An option without a letter, in line with those that have one. -/
def option (name text : String) (byDefault : Option String) : HelpEntry where
  label := "    " ++ name
  text
  byDefault

def format : HelpEntry :=
  option "--format <FORMAT>"
    "Pixel format (yuv420p, yuv422p, yuv444p and their 10le variants)"
    (some (default : PixelFormat).name)

def statsLabel : HelpEntry where
  label := "    --stats-label <STATS_LABEL>"
  text := "Label printed before the score on each stats line"
  byDefault := some (default : Stats.Label).text
  allowed := [
    ⟨Stats.Label.vif.text,
      some "Legacy label expected by existing log parsers"⟩,
    ⟨Stats.Label.adm.text, none⟩]

end HelpEntry

namespace HelpPage

def program : HelpPage where
  about :=
    "Full-reference video quality scoring (Additive Detail Measure)"
  usage := "adm [OPTIONS] <COMMAND>"
  lists := [
    ("Commands", [
      { label := "score"
        text := "Score a distorted raw YUV file against its reference" },
      { label := "info"
        text := "Show raw YUV file layout for a given geometry" },
      { label := "config"
        text := "Print or save a default run config as TOML" },
      { label := "help"
        text := "Print this message or the help of the given subcommand(s)"
      }]),
    ("Options", [.verbose, .help, .version])]

def score (isLong : Bool) : HelpPage where
  about := "Score a distorted raw YUV file against its reference"
  usage := "adm score [OPTIONS] [REFERENCE] [DISTORTED]"
  lists := [
    ("Arguments", [
      { label := "[REFERENCE]"
        text := "Reference (undistorted) raw YUV file" },
      { label := "[DISTORTED]"
        text := "Distorted raw YUV file" }]),
    ("Options", [
      .option "--config <CONFIG>"
        "Run config file (TOML); replaces all other options" none,
      .verbose,
      .option "--width <WIDTH>" "Frame width in pixels" (some "1920"),
      .option "--height <HEIGHT>" "Frame height in pixels" (some "1080"),
      .format,
      .option "--stats-file <STATS_FILE>"
        "Write per-frame stats lines to this file (`-` for stdout)" none,
      .statsLabel,
      .option "--parallel" "Score frame chunks in parallel" none,
      .option "--threads <THREADS>"
        "Worker threads for --parallel (defaults to all cores)" none,
      .option "--per-frame" "Print every frame's score" none,
      .helpOf isLong])]

def info : HelpPage where
  about := "Show raw YUV file layout for a given geometry"
  usage := "adm info [OPTIONS] --width <WIDTH> --height <HEIGHT> <FILE>"
  lists := [
    ("Arguments", [{ label := "<FILE>", text := "Raw planar YUV file" }]),
    ("Options", [
      .verbose,
      .option "--width <WIDTH>" "Frame width in pixels" none,
      .option "--height <HEIGHT>" "Frame height in pixels" none,
      .format,
      .help])]

def config : HelpPage where
  about := "Print or save a default run config as TOML"
  usage := "adm config [OPTIONS]"
  lists := [
    ("Options", [
      { label := "-o, --output <OUTPUT>"
        text := "Write config to a file instead of stdout" },
      .verbose,
      .help])]

/-- Help on the command that helps, which has no options itself. -/
def help : HelpPage where
  about := "Print this message or the help of the given subcommand(s)"
  usage := "adm help [COMMAND]..."
  lists := [
    ("Arguments", [
      { label := "[COMMAND]..."
        text := "Print help for the subcommand(s)" }])]

end HelpPage

/-- The help on a topic. -/
def Topic.helpText (isLong : Bool) : Topic → String
  | .program => HelpPage.program.text isLong
  | .score => (HelpPage.score isLong).text isLong
  | .info => HelpPage.info.text isLong
  | .config => HelpPage.config.text isLong
  | .help => HelpPage.help.text isLong

end CommandLine

end AdditiveDetail

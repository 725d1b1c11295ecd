/-
What each command does, as a script, and how a run can fail.

# The order of effects

Scoring first reads all that it needs and decides whether the videos can
be scored; only a run that has scored every frame creates the stats file.
So a run that fails before that leaves every file as it was. From there on
it writes line by line, and a line that is refused ends it with what has
been written so far.

# Workers

Frames are scored by as many workers at a time as were asked for, and if
these cannot be started the run fails. How many there are makes no
difference to the scores: the frames are cut into chunks whatever their
number, and no order of the workers' steps changes what they come to.
-/
import AdditiveDetail.CommandLine.Command
import AdditiveDetail.CommandLine.Help
import AdditiveDetail.CommandLine.Script
import AdditiveDetail.Scoring.Workers

namespace AdditiveDetail

namespace CommandLine

/-- Which of the two videos. -/
inductive Role where
  | reference
  | distorted
  deriving DecidableEq

def Role.text : Role → String
  | .reference => "reference"
  | .distorted => "distorted"

/-- Why a run failed. -/
inductive RunError where
  | videosMissing
  | configUnread (path : String) (cause : IoError)
  | configInvalid
  | configUnwritten (path : String) (cause : IoError)
  | videoUnopened (role : Role) (path : String) (cause : Error)
  | statsUncreated (path : String) (cause : Error)
  | workersUnstarted (causes : List String)
  | failed (cause : Failure)

namespace RunError

/-- The texts of an error and of what caused it. -/
def errorChain (e : Error) : List String :=
  match e with
  | .io cause => [e.message, cause.message]
  | _ => [e.message]

/-- The texts of a failure, from the outermost cause to the innermost. What
makes a document invalid is not told. -/
def chain : RunError → List String
  | videosMissing =>
      ["Both reference and distorted files are required "
        ++ "unless --config is given"]
  | configUnread path cause =>
      ["Failed to read config " ++ path, cause.message]
  | configInvalid => ["Invalid run config"]
  | configUnwritten path cause =>
      ["Failed to write config to " ++ path, cause.message]
  | videoUnopened role path cause =>
      ("Failed to open " ++ role.text ++ " " ++ path) :: errorChain cause
  | statsUncreated path cause =>
      ("Failed to create stats file " ++ path) :: errorChain cause
  | workersUnstarted causes => "Failed to build worker pool" :: causes
  | failed (.error cause) => errorChain cause
  | failed (.fault cause) => cause.message?.toList

end RunError

/-- A script that may stop with an error. -/
abbrev Action := ExceptT RunError Script

namespace Action

def lift {α : Type} (s : Script α) : Action α := ExceptT.lift s

def print (text : String) : Action Unit := lift (.print text (.done ()))

def read (path : String) : Action (Except IoError Bytes) :=
  lift (.read path .done)

def create (path : String) : Action (Except IoError Unit) :=
  lift (.create path .done)

def append (path text : String) : Action (Except IoError Unit) :=
  lift (.append path text .done)

def flush (path : String) : Action (Except IoError Unit) :=
  lift (.flush path .done)

def startWorkers (count : Nat) : Action (Except (List String) Unit) :=
  lift (.startWorkers count .done)

/-- Go on with a result, or stop with an error. -/
def ofExcept {ε α : Type} (wrap : ε → RunError) : Except ε α → Action α
  | .ok a => pure a
  | .error e => throw (wrap e)

end Action

-- =================================================================== scoring

/-- Text as it stands in a file. -/
def decodeText (bytes : Bytes) : Except IoError String :=
  match String.fromUTF8? ⟨bytes⟩ with
  | some text => .ok text
  | none => .error .notUnicode

/-- The configuration of a run: from a document, or from the options. -/
def runConfig (o : ScoreOptions) : Action RunConfig :=
  match o.config with
  | some path => do
      let file ← Action.read path
      let text ← Action.ofExcept (.configUnread path) (file >>= decodeText)
      match RunConfig.ofText? text with
      | some config => return config
      | none => throw .configInvalid
  | none =>
      match o.reference, o.distorted with
      | some reference, some distorted =>
          return {
            reference
            distorted
            parallel := o.parallel
            stream := ⟨o.dims, o.format⟩
            stats := ⟨o.statsFile, o.statsLabel⟩ }
      | _, _ => throw .videosMissing

/-- Videos are mapped into memory. A directory can be opened for that, but
there is nothing in it to map. -/
def mapped : Except IoError Bytes → Except IoError Bytes :=
  Except.mapError fun
    | .isDirectory => .notMappable
    | cause => cause

/-- Open a video. -/
def openVideo (path : String) (stream : Config)
    (wrap : Error → RunError) : Action RawVideo := do
  let file ← Action.read path
  Action.ofExcept wrap
    (RawVideo.ofFile (mapped file) stream.dims stream.format)

/-- Start the workers that were asked for, if frames are scored in
parallel. -/
def startPool (c : RunConfig) (threads : Option Nat) : Action Unit :=
  match c.parallel, threads with
  | true, some count => do
      let started ← Action.startWorkers count
      Action.ofExcept .workersUnstarted started
  | _, _ => pure ()

/-- Score two videos the way a configuration says. -/
def scoreVideos (c : RunConfig) (reference distorted : RawVideo) :
    Except Failure Summary :=
  if c.parallel then
    (Sequence.scoreParallel reference distorted c.stream).outcome
  else
    match Scorer.allocate c.stream with
    | .error e => .error (.error e)
    | .ok scorer => (Sequence.score reference distorted scorer).outcome

/-- Where stats lines go. -/
inductive Output where
  | stdout
  | file (path : String)

namespace Output

/-- Open an output: a hyphen stands for standard output, any other path for a
new file. -/
def create (path : String) : Action (Except IoError Output) :=
  if path = "-" then return .ok .stdout
  else do
    let created ← Action.create path
    return created.map fun _ => .file path

/-- Put a line. -/
def put (output : Output) (line : String) : Action (Except IoError Output) :=
  match output with
  | .stdout => do
      Action.print (line ++ "\n")
      return .ok output
  | .file path => do
      let appended ← Action.append path (line ++ "\n")
      return appended.map fun _ => output

/-- Have all written out that was put. -/
def flush : Output → Action (Except IoError Unit)
  | .stdout => return .ok ()
  | .file path => Action.flush path

end Output

/-- Write the lines of frames, up to the first that is refused. -/
def writeFrames (w : Stats.Writer Output) :
    List FrameScore → Action (Stats.Writer Output)
  | [] => return w
  | frame :: rest => do
      let written ← w.writeFrameBy Output.put frame.index frame.score.value
      Action.ofExcept (fun e => .failed (.error e)) written.1
      writeFrames written.2 rest

/-- Have the lines of a writer written out. -/
def finalize (w : Stats.Writer Output) : Action Unit := do
  let flushed ← w.sink.flush
  Action.ofExcept (fun e => .failed (.error (.io e))) flushed

/-- Write stats lines to a new output. -/
def writeStats (path : String) (label : Stats.Label) (s : Summary) :
    Action Unit := do
  let created ← Output.create path
  let output ← Action.ofExcept (fun e => .statsUncreated path (.io e)) created
  let w ← writeFrames (.start label output) s.frames
  finalize w

def runScore (o : ScoreOptions) : Action Unit := do
  let c ← runConfig o
  let reference ← openVideo c.reference c.stream
    (.videoUnopened .reference c.reference)
  let distorted ← openVideo c.distorted c.stream
    (.videoUnopened .distorted c.distorted)
  Action.print (runHeader c reference.frameCount distorted.frameCount)
  startPool c o.threads
  let summary ← Action.ofExcept .failed (scoreVideos c reference distorted)
  match c.stats.file with
  | some path => writeStats path c.stats.label summary
  | none => pure ()
  Action.print (summaryReport summary o.perFrame)

-- ============================================================ other commands

def runInfo (o : InfoOptions) : Action Unit := do
  let v ← openVideo o.file ⟨o.dims, o.format⟩ fun e => .failed (.error e)
  Action.print (fileReport o.file v)

/-- Print the default configuration, or save it. -/
def runConfigCommand (output : Option String) : Action Unit := do
  let text := (default : RunConfig).toText
  match output with
  | some path =>
      let created ← Action.create path
      Action.ofExcept (.configUnwritten path) created
      let written ← Action.append path text
      Action.ofExcept (.configUnwritten path) written
      Action.print ("Default config saved to " ++ path ++ "\n")
  | none => Action.print text

def Command.run : Command → Action Unit
  | .score o => runScore o
  | .info o => runInfo o
  | .config output => runConfigCommand output

-- =============================================================== the program

/-- Why a command line came to nothing. -/
inductive Stop where
  | usage (cause : UsageError)
  | run (cause : RunError)

/-- The status with which the program ends. Being asked for help or for
the version is no failure. -/
def exitCode : Except Stop Unit → Nat
  | .ok _ => 0
  | .error (.usage (.helpAsked ..)) => 0
  | .error (.usage .versionAsked) => 0
  | .error (.usage _) => 2
  | .error (.run _) => 1

/-- What is printed in answer to a command line that is not run. -/
def UsageError.answer : UsageError → String
  | .helpAsked topic isLong => topic.helpText isLong
  | .versionAsked => "adm 0.1.0\n"
  | _ => ""

/-- The whole program: the script of a command line. -/
def program (arguments : List String) : Script (Except Stop Unit) :=
  match Command.ofArguments arguments with
  | .error cause => .print cause.answer (.done (.error (.usage cause)))
  | .ok command => do
      match ← command.run.run with
      | .ok _ => return .ok ()
      | .error cause => return .error (.run cause)

end CommandLine

end AdditiveDetail

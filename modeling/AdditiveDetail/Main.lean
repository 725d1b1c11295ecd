/-
The program: runs the script of its command line against the files and
the standard output that it is started with.
-/
import AdditiveDetail.CommandLine.Run

namespace AdditiveDetail

namespace CommandLine

/-- What went wrong with a file. -/
def causeOf (e : IO.Error) : IoError :=
  match e with
  | .noFileOrDirectory .. => .notFound
  | e => .other (toString e)

/-- An effect on a file, with its failure as a value. -/
def attempt {α : Type} (effect : IO α) : IO (Except IoError α) := do
  try
    return .ok (← effect)
  catch e =>
    return .error (causeOf e)

/-- Perform the effects of a script. What is appended is written out at once,
and frames are scored one after the other, so there is nothing to flush and
there are no workers to start. -/
def Script.perform {α : Type} : Script α → IO α
  | .done a => pure a
  | .print text next => do
      (← IO.getStdout).putStr text
      next.perform
  | .read path next => do
      let bytes ← attempt (IO.FS.readBinFile path)
      (next (bytes.map ByteArray.data)).perform
  | .create path next => do
      (next (← attempt (IO.FS.writeFile path ""))).perform
  | .append path text next => do
      let appended ← attempt do
        let handle ← IO.FS.Handle.mk path .append
        handle.putStr text
        handle.flush
      (next appended).perform
  | .flush _ next => (next (.ok ())).perform
  | .startWorkers _ next => (next (.ok ())).perform

/-- What is told about a command line that is not run, if its answer has
not been printed. -/
def complaint : UsageError → String
  | .helpAsked .. | .versionAsked => ""
  | .nothingAsked => Topic.program.helpText false
  | _ => "Usage: " ++ HelpPage.program.usage ++ "\n"

/-- Tell why the program stopped. -/
def report : Except Stop Unit → IO Unit
  | .ok _ => pure ()
  | .error (.usage cause) => do (← IO.getStderr).putStr (complaint cause)
  | .error (.run cause) => do
      (← IO.getStderr).putStrLn ("Error: " ++ ": ".intercalate cause.chain)

end CommandLine

end AdditiveDetail

open AdditiveDetail.CommandLine in
def main (arguments : List String) : IO UInt32 := do
  let result ← (program arguments).perform
  report result
  return (exitCode result).toUInt32

/-
What the program does to the world, as data. A script prints, reads whole
files, creates files, appends to them and has what was appended written out,
and it starts workers, one effect at a time; each effect but printing may
fail.

# Who runs it

What a script does is a matter of who runs it. A `Host` is anything that
answers effects: its files are a state of any kind, and nothing is known of
them but what comes of an effect. `runOn` runs a script on a host. A
directory as a value is one such host (`World`), and `runIn` runs a script
there; what is said of runs is said of `runOn`.

Standard output is no part of a host: it takes all that is printed.
-/
import AdditiveDetail.CommandLine.Directory

namespace AdditiveDetail

namespace CommandLine

/-- Effects in their order, up to a result. -/
inductive Script (α : Type) where
  | done (a : α)
  | print (text : String) (next : Script α)
  | read (path : String) (next : Except IoError Bytes → Script α)
  /-- Make an empty file of this name, in place of any that there is. -/
  | create (path : String) (next : Except IoError Unit → Script α)
  | append (path text : String) (next : Except IoError Unit → Script α)
  /-- Have all written out that was appended to a file. -/
  | flush (path : String) (next : Except IoError Unit → Script α)
  /-- Start so many workers; none asks for one per processor. Where that
  fails, the texts of the causes are told. -/
  | startWorkers (count : Nat)
      (next : Except (List String) Unit → Script α)

namespace Script

variable {α β : Type}

def bind (f : α → Script β) : Script α → Script β
  | done a => f a
  | print text next => print text (bind f next)
  | read path next => read path fun r => bind f (next r)
  | create path next => create path fun r => bind f (next r)
  | append path text next => append path text fun r => bind f (next r)
  | flush path next => flush path fun r => bind f (next r)
  | startWorkers count next => startWorkers count fun r => bind f (next r)

instance : Monad Script where
  pure := done
  bind s f := bind f s

end Script

-- ===================================================================== hosts

/-- What comes of effects on files in a state `σ`, and of a wish for workers.
Any of them may fail. Reading leaves the files as they are; an effect that
changes files and fails leaves them as it leaves them, say with a part of a
text at the end of a file. -/
structure Host (σ : Type) where
  read : σ → (path : String) → Except IoError Bytes
  create : σ → (path : String) → Except IoError Unit × σ
  append : σ → (path text : String) → Except IoError Unit × σ
  flush : σ → (path : String) → Except IoError Unit × σ
  workers : (count : Nat) → Except (List String) Unit

/-- A script that has been run: its result, what it printed, and the files as
it left them. -/
structure Transcript (σ α : Type) where
  result : α
  stdout : String
  files : σ

/-- Run a script on a host, from files in a state and behind what has been
printed before. -/
def Script.runOn {σ α : Type} (host : Host σ) (files : σ) (stdout : String) :
    Script α → Transcript σ α
  | .done result => { result, stdout, files }
  | .print text next => next.runOn host files (stdout ++ text)
  | .read path next => (next (host.read files path)).runOn host files stdout
  | .create path next =>
      let changed := host.create files path
      (next changed.1).runOn host changed.2 stdout
  | .append path text next =>
      let changed := host.append files path text
      (next changed.1).runOn host changed.2 stdout
  | .flush path next =>
      let changed := host.flush files path
      (next changed.1).runOn host changed.2 stdout
  | .startWorkers count next =>
      (next (host.workers count)).runOn host files stdout

-- =============================================================== a directory

/-- A directory as a host: a change that is refused leaves it as it is, and
what is appended to a file is written at once. -/
structure World extends Directory where
  /-- What becomes of a wish for so many workers. -/
  workers : Nat → Except (List String) Unit := fun _ => .ok ()

/-- What comes of a change of a directory that may be refused. -/
def Directory.changed (d : Directory) :
    Except IoError Directory → Except IoError Unit × Directory
  | .ok d' => (.ok (), d')
  | .error cause => (.error cause, d)

def World.host (w : World) : Host Directory where
  read := Directory.read
  create d path := d.changed (d.create path)
  append d path text := d.changed (d.append path text)
  flush d _ := (.ok (), d)
  workers := w.workers

/-- The directory as a script left it. -/
def Transcript.directory {α : Type} (t : Transcript Directory α) : Directory :=
  t.files

/-- Run a script in a directory. -/
def Script.runIn {α : Type} (w : World) (stdout : String) (s : Script α) :
    Transcript Directory α :=
  s.runOn w.host w.toDirectory stdout

end CommandLine

end AdditiveDetail

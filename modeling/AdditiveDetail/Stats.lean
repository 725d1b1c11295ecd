/-
Stats lines: one line of text per scored frame, `n:INDEX LABEL:SCORE`,
written one by one to a sink that may refuse. A line that is refused is not
counted. What it leaves in the sink is the sink's own affair: a list of lines
in memory keeps no trace of it.
-/
import AdditiveDetail.Error
import AdditiveDetail.Score

namespace AdditiveDetail

namespace Stats

/-- What a line calls the score. Tools that read the lines expect the
first label, whose name is that of another measure. -/
inductive Label where
  | vif
  | adm
  deriving DecidableEq

namespace Label

instance : Inhabited Label := ⟨vif⟩

def all : List Label := [vif, adm]

def text : Label → String
  | vif => "vif"
  | adm => "adm"

/-- The label with exactly this text. -/
def ofText? (text : String) : Option Label :=
  all.find? fun l => l.text = text

end Label

/-- The line of a frame, with the score to two places. -/
def line (index : Nat) (score : Binary64) (label : Label) : String :=
  s!"n:{index} " ++ label.text ++ ":" ++ score.toFixed 2

/-- Where lines go. -/
structure Sink where
  /-- How many more lines it takes, if there is a bound. -/
  room : Option Nat
  /-- The lines that it took, the latest first. -/
  latest : List String

namespace Sink

/-- An empty sink without bound. -/
def unbounded : Sink := { room := none, latest := [] }

/-- An empty sink that refuses every line once it holds so many. -/
def ofCapacity (n : Nat) : Sink := { room := some n, latest := [] }

/-- Put a line. -/
def put (s : Sink) (line : String) : Except IoError Sink :=
  match s.room with
  | some 0 => .error (.other "sink full")
  | room => .ok { room := room.map (· - 1), latest := line :: s.latest }

/-- All that was put, each line with its end. -/
def text (s : Sink) : String :=
  String.join (s.latest.reverse.map (· ++ "\n"))

end Sink

/-- Lines on their way to a sink. -/
structure Writer (κ : Type) where
  label : Label
  sink : κ
  linesWritten : Nat

namespace Writer

variable {κ : Type} {m : Type → Type} [Monad m]

def start (label : Label) (sink : κ) : Writer κ :=
  { label, sink, linesWritten := 0 }

/-- Write the line of a frame to a sink of any kind, where `put` tells what
becomes of the line. -/
def writeFrameBy (put : κ → String → m (Except IoError κ)) (w : Writer κ)
    (index : Nat) (score : Binary64) : m (Except Error Unit × Writer κ) := do
  match ← put w.sink (line index score w.label) with
  | .ok sink =>
      return (.ok (), { w with sink, linesWritten := w.linesWritten + 1 })
  | .error cause => return (.error (.io cause), w)

/-- Write the line of a frame to a sink in memory. -/
def writeFrame (w : Writer Sink) (index : Nat) (score : Binary64) :
    Except Error Unit × Writer Sink :=
  Id.run (w.writeFrameBy (fun sink line => pure (sink.put line)) index score)

end Writer

end Stats

end AdditiveDetail

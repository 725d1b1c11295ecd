/-
What the report of a scoring run comes to.

# Lines

A line names a frame by its index and gives its score to two places.
`IsStatsLine` says so without the function that makes it: the digits are
those of the exact score, rounded once (`isStatsLine_line`).

# One by one

A writer puts one line after the other and stops at the first that is
refused. On standard output none is (`writeFrames_stdout`); in a file each
is appended (`writeFrames_file`). Both are inductions on the frames. With
the file created before and written out after, stats in a file come to what
storing their lines comes to, and a run whose lines are refused ends where
the storing ended (`writeStats_file`).

# The report

`putStats` tells a report's effect on the files for every place that stats
can have, and with it goes what the report prints (`report_runOn`).
-/
import AdditiveDetail.Proofs.Binary.Printing
import AdditiveDetail.Proofs.CommandLine.Files
import AdditiveDetail.Proofs.CommandLine.Scoring

namespace AdditiveDetail

namespace CommandLine

variable {σ : Type} {host : Host σ} {files : σ} {path stdout : String}
  {label : Stats.Label} {n : Nat}

-- ====================================================================== lines

/-- The lines of frames, each with its end. -/
def statsLines (label : Stats.Label) (frames : List FrameScore) :
    List String :=
  frames.map fun frame =>
    Stats.line frame.index frame.score.value label ++ "\n"

@[simp] theorem statsLines_nil : statsLines label [] = [] := rfl

@[simp] theorem statsLines_cons (frame : FrameScore)
    (rest : List FrameScore) :
    statsLines label (frame :: rest)
      = (Stats.line frame.index frame.score.value label ++ "\n")
        :: statsLines label rest :=
  rfl

/-- A line of stats: an index, a label, and a score to two places. -/
def IsStatsLine (label : Stats.Label) (i : Nat) (score : Score)
    (line : String) : Prop :=
  ∃ text, score.value.IsPrinted 2 text ∧
    line = "n:" ++ toString i ++ " "
      ++ (match label with | .vif => "vif:" | .adm => "adm:") ++ text ++ "\n"

theorem isStatsLine_line (label : Stats.Label) (i : Nat) (score : Score) :
    IsStatsLine label i score (Stats.line i score.value label ++ "\n") := by
  refine ⟨_, Binary.toFixed_isPrinted 2 score.value, ?_⟩
  cases label <;>
    simp [Stats.line, Stats.Label.text, String.append_assoc, ToString.toString]

/-- The lines of frames without a gap are numbered from zero. -/
theorem statsLines_numbered {frames : List FrameScore} {i : Nat}
    (hindices : frames.map FrameScore.index = List.range n) (hi : i < n) :
    ∃ frame line, frames[i]? = some frame ∧ frame.index = i ∧
      (statsLines label frames)[i]? = some line ∧
      IsStatsLine label i frame.score line := by
  have hindex := congrArg (fun l => l[i]?) hindices
  simp only [List.getElem?_map, List.getElem?_range hi] at hindex
  obtain ⟨frame, hframe, rfl⟩ := Option.map_eq_some_iff.1 hindex
  refine ⟨frame, _, hframe, rfl, ?_, isStatsLine_line ..⟩
  rw [statsLines, List.getElem?_map, hframe]
  rfl

-- ================================================================= the writer

theorem Output.put_stdout (host : Host σ) (files : σ) (stdout line : String) :
    (Output.put .stdout line).run.runOn host files stdout
      = { result := .ok (.ok .stdout), stdout := stdout ++ (line ++ "\n")
          files } :=
  (Action.runOn_ok (Action.runOn_print _)).trans rfl

theorem Output.put_file (host : Host σ) (files : σ)
    (path stdout line : String) :
    (Output.put (.file path) line).run.runOn host files stdout
      = { result := .ok
            ((host.append files path (line ++ "\n")).1.map fun _ => .file path)
          stdout, files := (host.append files path (line ++ "\n")).2 } :=
  (Action.runOn_ok (Action.runOn_append ..)).trans rfl

section Step

variable {output : Output} {frame : FrameScore} {rest : List FrameScore}
  {out : String} {files' : σ}

/-- Behind a line that is taken the others are written. -/
theorem writeFrames_taken
    (hput : (output.put (Stats.line frame.index frame.score.value
        label)).run.runOn host files stdout
      = { result := .ok (.ok output), stdout := out, files := files' }) :
    (writeFrames ⟨label, output, n⟩ (frame :: rest)).run.runOn host files
        stdout
      = (writeFrames ⟨label, output, n + 1⟩ rest).run.runOn host files'
          out := by
  have hwrite : (Stats.Writer.writeFrameBy Output.put ⟨label, output, n⟩
      frame.index frame.score.value).run.runOn host files stdout
        = { result := .ok (.ok (), ⟨label, output, n + 1⟩), stdout := out
            files := files' } :=
    (Action.runOn_ok hput).trans rfl
  exact (Action.runOn_ok hwrite).trans rfl

/-- A line that is refused is the last one. -/
theorem writeFrames_refused {cause : IoError}
    (hput : (output.put (Stats.line frame.index frame.score.value
        label)).run.runOn host files stdout
      = { result := .ok (.error cause), stdout := out, files := files' }) :
    (writeFrames ⟨label, output, n⟩ (frame :: rest)).run.runOn host files
        stdout
      = { result := .error (.failed (.error (.io cause))), stdout := out
          files := files' } := by
  have hwrite : (Stats.Writer.writeFrameBy Output.put ⟨label, output, n⟩
      frame.index frame.score.value).run.runOn host files stdout
        = { result := .ok (.error (.io cause), ⟨label, output, n⟩)
            stdout := out, files := files' } :=
    (Action.runOn_ok hput).trans rfl
  exact (Action.runOn_ok hwrite).trans rfl

end Step

/-- Standard output takes every line. -/
theorem writeFrames_stdout (frames : List FrameScore) :
    (writeFrames ⟨label, .stdout, n⟩ frames).run.runOn host files stdout
      = { result := .ok ⟨label, .stdout, n + frames.length⟩
          stdout := stdout ++ String.join (statsLines label frames)
          files } := by
  induction frames generalizing n stdout with
  | nil =>
      rw [statsLines_nil, String.join_nil, String.append_empty]
      rfl
  | cons frame rest ih =>
      rw [writeFrames_taken (Output.put_stdout ..), ih, statsLines_cons,
        String.join_cons, String.append_assoc, List.length_cons,
        Nat.add_right_comm]
      rfl

/-- A file takes lines as its host does, up to the first that is refused. -/
theorem writeFrames_file (host : Host σ) (files : σ) (path stdout : String)
    (label : Stats.Label) (n : Nat) (frames : List FrameScore) :
    (writeFrames ⟨label, .file path, n⟩ frames).run.runOn host files stdout
      = { result :=
            ((host.appendLines path files (statsLines label frames)).1.map
              fun _ => ⟨label, .file path, n + frames.length⟩).mapError
                fun e => .failed (.error (.io e))
          stdout
          files :=
            (host.appendLines path files (statsLines label frames)).2 } := by
  induction frames generalizing files n with
  | nil => rfl
  | cons frame rest ih =>
      have hput := Output.put_file host files path stdout
        (Stats.line frame.index frame.score.value label)
      rw [statsLines_cons, Host.appendLines]
      cases happend : (host.append files path
          (Stats.line frame.index frame.score.value label ++ "\n")).1 with
      | ok _ =>
          rw [happend] at hput
          rw [writeFrames_taken hput, ih, Host.next_of_ok happend,
            List.length_cons, Nat.add_right_comm]
          rfl
      | error cause =>
          rw [happend] at hput
          rw [writeFrames_refused hput, Host.next_of_error happend]
          rfl

-- ================================================================== the stats

/-- Stats for standard output change no file. -/
theorem writeStats_stdout (s : Summary) :
    (writeStats "-" label s).run.runOn host files stdout
      = { result := .ok ()
          stdout := stdout ++ String.join (statsLines label s.frames)
          files } :=
  (Action.runOn_ok (writeFrames_stdout s.frames)).trans rfl

theorem finalize_file :
    (finalize ⟨label, .file path, n⟩).run.runOn host files stdout
      = { result := (host.flush files path).1.mapError fun e =>
            .failed (.error (.io e))
          stdout, files := (host.flush files path).2 } :=
  (Action.runOn_ok (Action.runOn_flush path)).trans
    (Action.sees_ofExcept _ _ stdout)

/-- How a run ends whose stats are refused: it tells apart whether there is
a file for them. -/
def statsRefused (host : Host σ) (files : σ) (path : String)
    (cause : IoError) : RunError :=
  match (host.create files path).1 with
  | .ok _ => .failed (.error (.io cause))
  | .error _ => .statsUncreated path (.io cause)

/-- Stats for a file come to what storing their lines comes to. -/
theorem writeStats_file (host : Host σ) (files : σ) (hpath : path ≠ "-")
    (stdout : String) (label : Stats.Label) (s : Summary) :
    (writeStats path label s).run.runOn host files stdout
      = { result :=
            (host.store files path (statsLines label s.frames)).1.mapError
              (statsRefused host files path)
          stdout
          files :=
            (host.store files path (statsLines label s.frames)).2 } := by
  have hopen : (Output.create path).run.runOn host files stdout
      = { result := .ok
            ((host.create files path).1.map fun _ => .file path)
          stdout, files := (host.create files path).2 } := by
    unfold Output.create
    rw [if_neg hpath]
    exact (Action.runOn_ok (Action.runOn_create path)).trans rfl
  unfold writeStats Host.store statsRefused
  rw [Action.runOn_ok hopen]
  cases hcreate : (host.create files path).1 with
  | error cause =>
      rw [Host.next_of_error hcreate]
      rfl
  | ok _ =>
      rw [Host.next_of_ok hcreate]
      have hframes := writeFrames_file host (host.create files path).2 path
        stdout label 0 s.frames
      cases happend : (host.appendLines path (host.create files path).2
          (statsLines label s.frames)).1 with
      | error cause =>
          rw [happend] at hframes
          rw [Host.next_of_error happend]
          exact (Action.runOn_error hframes).trans rfl
      | ok _ =>
          rw [happend] at hframes
          rw [Host.next_of_ok happend]
          exact (Action.runOn_ok hframes).trans finalize_file

-- ================================================================= the report

/-- What putting stats in their place comes to: nothing where none are asked
for or a hyphen stands for standard output, and else what storing their lines
comes to. -/
def putStats (host : Host σ) (files : σ) (stats : StatsConfig)
    (s : Summary) : Except RunError Unit × σ :=
  match stats.file with
  | none => (.ok (), files)
  | some path =>
      if path = "-" then (.ok (), files)
      else
        let stored := host.store files path (statsLines stats.label s.frames)
        (stored.1.mapError (statsRefused host files path), stored.2)

/-- What is printed of the stats. -/
def printedStats (stats : StatsConfig) (s : Summary) : String :=
  if stats.file = some "-" then String.join (statsLines stats.label s.frames)
  else ""

/-- A report puts the stats in their place. Where that succeeds it prints the
summary, behind the stats if these are printed. -/
theorem report_runOn (x : Found) (perFrame : Bool) (s : Summary)
    (host : Host σ) (files : σ) (stdout : String) :
    (x.report perFrame s).run.runOn host files stdout =
      let put := putStats host files x.config.stats s
      { result := put.1
        stdout := match put.1 with
          | .ok _ => stdout ++ printedStats x.config.stats s
              ++ summaryReport s perFrame
          | .error _ => stdout
        files := put.2 } := by
  unfold Found.report putStats printedStats
  cases x.config.stats.file with
  | none =>
      dsimp only
      rw [if_neg (by simp), String.append_empty]
      exact Action.runOn_print _
  | some path =>
      by_cases hpath : path = "-"
      · subst hpath
        dsimp only
        rw [if_pos rfl, if_pos rfl]
        exact (Action.runOn_ok (writeStats_stdout s)).trans
          (Action.runOn_print _)
      · dsimp only
        rw [if_neg hpath, if_neg (by simpa using hpath), String.append_empty]
        have hstats := writeStats_file host files hpath stdout
          x.config.stats.label s
        cases hstored : (host.store files path
            (statsLines x.config.stats.label s.frames)).1 with
        | error cause =>
            rw [hstored] at hstats
            exact (Action.runOn_error hstats).trans rfl
        | ok _ =>
            rw [hstored] at hstats
            exact (Action.runOn_ok hstats).trans (Action.runOn_print _)

end CommandLine

end AdditiveDetail

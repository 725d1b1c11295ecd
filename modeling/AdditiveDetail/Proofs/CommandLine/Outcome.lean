/-
How a run that was asked to score comes out.

# What a run needs

`Scorable` lists what a run needs to come to scores, one line for each of
its checks. A run that lacks any of it fails before it changes a file
(`runScore_unscorable`). One that has it all goes on to its report
(`Scorable.runScore`), and then the place of the stats decides alone: the
run completes if their lines are stored (`Completes`), and otherwise ends
with what the refused effect has left.

# What a run leaves

`Leaves` tells this for every place that stats can have. Nothing is
promised of the host, so a line can be refused after others were taken. On
top of that stands what holds of files that keep what they are given and of
paths that are apart.

# In parallel or not

Options that differ in how many workers score, if any, find the same videos
(`sameRun_flags`) and come to the same summary, so they put the same lines
in the same place (`putStats_sameRun`).
-/
import Mathlib
import AdditiveDetail.Proofs.CommandLine.Directories
import AdditiveDetail.Proofs.CommandLine.Reporting

namespace AdditiveDetail

namespace CommandLine

variable {σ : Type} {host : Host σ} {files : σ} {o : ScoreOptions}
  {c : RunConfig} {reference distorted : RawVideo} {s : Summary}

-- =========================================================== what a run needs

/-- What a run needs to come to scores: a configuration, two videos of it, the
workers that were asked for, memory for a scorer, and a frame to score. -/
structure Scorable (host : Host σ) (files : σ) (o : ScoreOptions)
    (c : RunConfig) (reference distorted : RawVideo) : Prop where
  configured : Configures host files o c
  reference_opens : Opens host files c.reference c.stream reference
  distorted_opens : Opens host files c.distorted c.stream distorted
  workers : c.parallel → ∀ count, o.threads = some count →
    host.workers count = .ok ()
  memory : ∃ fresh, Scorer.allocate c.stream = .ok fresh
  frames : 0 < distorted.frameCount

/-- A run comes to scores, and the file for its stats, if there is to be one,
can be created and the lines written to it. -/
structure Completes (host : Host σ) (files : σ) (o : ScoreOptions)
    (c : RunConfig) (reference distorted : RawVideo) : Prop
    extends Scorable host files o c reference distorted where
  stored : ∀ fresh s path, Scorer.allocate c.stream = .ok fresh →
    Rates reference distorted fresh s → c.stats.file = some path →
    path ≠ "-" →
    (host.store files path (statsLines c.stats.label s.frames)).1 = .ok ()

/-- Options come to one run. -/
theorem Scorable.unique (h : Scorable host files o c reference distorted)
    {c' : RunConfig} {reference' distorted' : RawVideo}
    (h' : Scorable host files o c' reference' distorted') :
    c = c' ∧ reference = reference' ∧ distorted = distorted' := by
  have hc := seenConfig_ok_iff.2 h.configured
  have hc' := seenConfig_ok_iff.2 h'.configured
  obtain rfl := Except.ok.inj (hc.symm.trans hc')
  exact ⟨rfl, h.reference_opens.unique h'.reference_opens,
    h.distorted_opens.unique h'.distorted_opens⟩

-- ==================================================================== the run

/-- A run that has all that it needs comes to scores and reports them. -/
theorem Scorable.runScore (h : Scorable host files o c reference distorted)
    (stdout : String) :
    ∃ fresh s, Scorer.allocate c.stream = .ok fresh ∧
      Rates reference distorted fresh s ∧
      (runScore o).run.runOn host files stdout =
        let put := putStats host files c.stats s
        let header :=
          runHeader c reference.frameCount distorted.frameCount
        { result := put.1
          stdout := match put.1 with
            | .ok _ => stdout ++ header ++ printedStats c.stats s
                ++ summaryReport s o.perFrame
            | .error _ => stdout ++ header
          files := put.2 } := by
  obtain ⟨fresh, hfresh⟩ := h.memory
  obtain ⟨s, hs, hrates⟩ := scoreVideos_opened h.reference_opens
    h.distorted_opens hfresh h.frames
  refine ⟨fresh, s, hfresh, hrates, ?_⟩
  have hfound : seenVideos host files o = .ok ⟨c, reference, distorted⟩ :=
    seenVideos_ok_iff.2
      ⟨h.configured, h.reference_opens, h.distorted_opens⟩
  have hscores :
      Found.scores ⟨c, reference, distorted⟩ host o.threads = .ok s :=
    Found.scores_ok_iff.2 ⟨h.workers, hs⟩
  rw [runScore_runOn, hfound]
  dsimp only
  rw [hscores]
  exact report_runOn ..

/-- A run that lacks any of it fails and changes nothing. -/
theorem runScore_unscorable
    (h : ¬ ∃ c reference distorted,
      Scorable host files o c reference distorted) (stdout : String) :
    ∃ e out, (runScore o).run.runOn host files stdout
      = { result := .error e, stdout := out, files } := by
  rw [runScore_runOn]
  cases hfound : seenVideos host files o with
  | error e => exact ⟨e, _, rfl⟩
  | ok x =>
      dsimp only
      cases hscores : x.scores host o.threads with
      | error e => exact ⟨e, _, rfl⟩
      | ok s =>
          have ⟨hc, hr, hd⟩ := seenVideos_ok_iff.1 hfound
          have ⟨hworkers, hs⟩ := Found.scores_ok_iff.1 hscores
          have ⟨hmemory, hframes⟩ := of_scoreVideos_ok hs
          exact absurd ⟨x.config, x.reference, x.distorted,
            hc, hr, hd, hworkers, hmemory, hframes⟩ h

/-- The whole program is the command that its arguments ask for. -/
theorem program_runOn {arguments : List String} {command : Command}
    (h : Command.ofArguments arguments = .ok command) (host : Host σ)
    (files : σ) (stdout : String) :
    (program arguments).runOn host files stdout =
      let ran := command.run.run.runOn host files stdout
      { result := ran.result.mapError .run, stdout := ran.stdout
        files := ran.files } := by
  unfold program
  rw [h]
  dsimp only
  rw [Script.runOn_bind]
  cases (command.run.run.runOn host files stdout).result <;> rfl

-- ======================================================== what a run leaves

/-- What a run leaves that had lines for the place of its stats. -/
structure Leaves (host : Host σ) (files : σ) (stats : StatsConfig)
    (lines : List String) (run : Transcript σ (Except Stop Unit)) :
    Prop where
  /-- Without a file for them there is nothing to fail and to change. -/
  unfiled : (∀ path, stats.file = some path → path = "-") →
    run.result = .ok () ∧ run.files = files
  /-- A file that cannot be created ends the run. -/
  uncreated : ∀ path cause, stats.file = some path → path ≠ "-" →
    (host.create files path).1 = .error cause →
    run.result = .error (.run (.statsUncreated path (.io cause))) ∧
      run.files = (host.create files path).2
  /-- The lines are stored, and the run goes as the storing goes. -/
  stored : ∀ path, stats.file = some path → path ≠ "-" →
    run.files = (host.store files path lines).2 ∧
      (run.result = .ok () ↔ (host.store files path lines).1 = .ok ())
  /-- Behind a success they are what the file holds. -/
  holds : ∀ path held, stats.file = some path → path ≠ "-" →
    host.IsFile path held → run.result = .ok () →
    host.read run.files path = .ok (String.join lines).toUTF8.data
  /-- Other files are as they were, however the run ends. -/
  kept : ∀ path other, stats.file = some path → path ≠ "-" →
    host.Apart path other → host.read run.files other = host.read files other

/-- Putting stats in their place leaves just that. -/
theorem leaves_putStats {stats : StatsConfig}
    {run : Transcript σ (Except Stop Unit)}
    (hresult : run.result = (putStats host files stats s).1.mapError .run)
    (hfiles : run.files = (putStats host files stats s).2) :
    Leaves host files stats (statsLines stats.label s.frames) run := by
  have hput {path : String} (hfile : stats.file = some path)
      (hpath : path ≠ "-") : putStats host files stats s =
        let stored := host.store files path (statsLines stats.label s.frames)
        (stored.1.mapError (statsRefused host files path), stored.2) := by
    unfold putStats
    rw [hfile]
    exact if_neg hpath
  have hstored (path : String) (hfile : stats.file = some path)
      (hpath : path ≠ "-") :
      run.files
          = (host.store files path (statsLines stats.label s.frames)).2 ∧
        (run.result = .ok () ↔
          (host.store files path (statsLines stats.label s.frames)).1
            = .ok ()) := by
    rw [hresult, hfiles, hput hfile hpath, mapError_eq_ok, mapError_eq_ok]
    exact ⟨rfl, Iff.rfl⟩
  refine ⟨fun hunfiled => ?_, fun path cause hfile hpath hcreate => ?_,
    hstored, fun path held hfile hpath hheld hok => ?_,
    fun path other hfile hpath hapart => ?_⟩
  · have hunput : putStats host files stats s = (.ok (), files) := by
      unfold putStats
      cases hfile : stats.file with
      | none => rfl
      | some path => exact if_pos (hunfiled path hfile)
    rw [hresult, hfiles, hunput]
    exact ⟨rfl, rfl⟩
  · rw [hresult, hfiles, hput hfile hpath, Host.store_of_refused hcreate]
    simp only [statsRefused, hcreate, Except.mapError, and_self]
  · have ⟨hleft, hdone⟩ := hstored path hfile hpath
    rw [hleft]
    exact hheld.read_store (hdone.1 hok)
  · rw [(hstored path hfile hpath).1]
    exact hapart.read_store

-- ============================================================== in parallel

/-- Options that ask for the same run, in parallel or not. -/
def SameRun (host : Host σ) (files : σ) (o o' : ScoreOptions) : Prop :=
  ∀ c c', Configures host files o c → Configures host files o' c' →
    c' = { c with parallel := c'.parallel }

/-- Flags do not make another run. -/
theorem sameRun_flags (host : Host σ) (files : σ) (o : ScoreOptions)
    (parallel perFrame : Bool) (threads : Option Nat) :
    SameRun host files o { o with parallel, threads, perFrame } := by
  unfold SameRun Configures
  intro c c' h h'
  cases hconfig : o.config with
  | some path =>
      simp only [hconfig] at h h'
      obtain ⟨bytes, text, hread, htext, hc⟩ := h
      obtain ⟨bytes', text', hread', htext', hc'⟩ := h'
      obtain rfl := Except.ok.inj (hread.symm.trans hread')
      obtain rfl := Option.some.inj (htext.symm.trans htext')
      obtain rfl := Option.some.inj (hc.symm.trans hc')
      rfl
  | none =>
      simp only [hconfig] at h h'
      obtain ⟨r, d, hr, hd, rfl⟩ := h
      obtain ⟨r', d', hr', hd', rfl⟩ := h'
      obtain rfl := Option.some.inj (hr.symm.trans hr')
      obtain rfl := Option.some.inj (hd.symm.trans hd')
      rfl

/-- Two runs that are the same but for the workers put the same stats in the
same place. -/
theorem putStats_sameRun {o' : ScoreOptions} {c' : RunConfig}
    {reference' distorted' : RawVideo} {fresh fresh' : Scorer}
    {s' : Summary} (hsame : SameRun host files o o')
    (h : Scorable host files o c reference distorted)
    (h' : Scorable host files o' c' reference' distorted')
    (hfresh : Scorer.allocate c.stream = .ok fresh)
    (hfresh' : Scorer.allocate c'.stream = .ok fresh')
    (hs : Rates reference distorted fresh s)
    (hs' : Rates reference' distorted' fresh' s') :
    putStats host files c'.stats s' = putStats host files c.stats s := by
  have hc := hsame c c' h.configured h'.configured
  have hstream : c'.stream = c.stream := by rw [hc]
  have hstats : c'.stats = c.stats := by rw [hc]
  have hr' := h'.reference_opens
  have hd' := h'.distorted_opens
  rw [hc] at hr' hd'
  obtain rfl := h.reference_opens.unique hr'
  obtain rfl := h.distorted_opens.unique hd'
  rw [hstream] at hfresh'
  obtain rfl := Except.ok.inj (hfresh.symm.trans hfresh')
  obtain rfl := Except.ok.inj (hs.outcome.symm.trans hs'.outcome)
  rw [hstats]

-- ================================================================ the program

section Program

variable {arguments : List String}
  (h : Command.ofArguments arguments = .ok (.score o))

include h

/-- The program scores and reports if it is asked to and can. -/
theorem Scorable.program (hs : Scorable host files o c reference distorted)
    (stdout : String) :
    ∃ fresh s, Scorer.allocate c.stream = .ok fresh ∧
      Rates reference distorted fresh s ∧
      let run := (CommandLine.program arguments).runOn host files stdout
      run.result = (putStats host files c.stats s).1.mapError .run ∧
      run.files = (putStats host files c.stats s).2 ∧
      (run.result = .ok () → run.stdout = stdout
        ++ runHeader c reference.frameCount distorted.frameCount
        ++ printedStats c.stats s ++ summaryReport s o.perFrame) := by
  obtain ⟨fresh, s, hfresh, hrates, hrun⟩ := hs.runScore stdout
  have hcommand : (Command.score o).run.run.runOn host files stdout = _ :=
    hrun
  refine ⟨fresh, s, hfresh, hrates, ?_⟩
  rw [program_runOn h, hcommand]
  refine ⟨rfl, rfl, fun hok => ?_⟩
  have hput := mapError_eq_ok.1 hok
  dsimp only at hput ⊢
  rw [hput]

/-- Otherwise it fails, and changes nothing. -/
theorem program_unscorable
    (hs : ¬ ∃ c reference distorted,
      Scorable host files o c reference distorted) (stdout : String) :
    ∃ e out, (program arguments).runOn host files stdout
      = { result := .error e, stdout := out, files } := by
  obtain ⟨e, out, hrun⟩ := runScore_unscorable hs stdout
  have hcommand : (Command.score o).run.run.runOn host files stdout = _ :=
    hrun
  refine ⟨.run e, out, ?_⟩
  rw [program_runOn h, hcommand]
  rfl

end Program

/-- A run that comes to scores completes if their stats are put in their
place. -/
theorem completes_iff (hs : Scorable host files o c reference distorted)
    {fresh : Scorer} (hfresh : Scorer.allocate c.stream = .ok fresh)
    (hrates : Rates reference distorted fresh s) :
    (∃ c reference distorted,
        Completes host files o c reference distorted) ↔
      (putStats host files c.stats s).1 = .ok () := by
  unfold putStats
  constructor
  · rintro ⟨c', reference', distorted', hcomplete⟩
    obtain ⟨rfl, rfl, rfl⟩ := hs.unique hcomplete.toScorable
    cases hfile : c.stats.file with
    | none => rfl
    | some path =>
        by_cases hpath : path = "-"
        · dsimp only
          rw [if_pos hpath]
        · dsimp only
          rw [if_neg hpath, mapError_eq_ok]
          exact hcomplete.stored fresh s path hfresh hrates hfile hpath
  · intro hput
    refine ⟨c, reference, distorted, hs, ?_⟩
    intro fresh' s' path hfresh' hrates' hfile hpath
    obtain rfl := Except.ok.inj (hfresh.symm.trans hfresh')
    obtain rfl := Except.ok.inj (hrates.outcome.symm.trans hrates'.outcome)
    rw [hfile] at hput
    dsimp only at hput
    rw [if_neg hpath] at hput
    exact mapError_eq_ok.1 hput

/-- SCORING ON THE COMMAND LINE, on a host of which nothing is known: a run
completes exactly if it comes to scores and their stats, if they are to go to
a file, can be written there. One that does not come to scores changes no
file. One that does has a line for each frame that both videos have, in their
order, with the score that a new scorer gives it, and leaves what storing
these lines leaves. In parallel, with however many workers, that is the
same as in sequence. -/
theorem program_score (host : Host σ) (files : σ) (stdout : String)
    (arguments : List String) (o : ScoreOptions)
    (h : Command.ofArguments arguments = .ok (.score o)) :
    let run := (program arguments).runOn host files stdout
    (run.result = .ok () ↔
      ∃ c reference distorted,
        Completes host files o c reference distorted) ∧
    ((¬ ∃ c reference distorted,
        Scorable host files o c reference distorted) →
      (∃ cause, run.result = .error cause) ∧ run.files = files) ∧
    (∀ c reference distorted,
      Scorable host files o c reference distorted →
      ∃ fresh s lines, Scorer.allocate c.stream = .ok fresh ∧
        Rates reference distorted fresh s ∧
        lines = statsLines c.stats.label s.frames ∧
        lines.length = min reference.frameCount distorted.frameCount ∧
        (∀ i < lines.length, ∃ frame line, s.frames[i]? = some frame ∧
          frame.index = i ∧ lines[i]? = some line ∧
          IsStatsLine c.stats.label i frame.score line) ∧
        Leaves host files c.stats lines run ∧
        (run.result = .ok () → run.stdout = stdout
          ++ runHeader c reference.frameCount distorted.frameCount
          ++ printedStats c.stats s ++ summaryReport s o.perFrame)) ∧
    (∀ arguments' o', Command.ofArguments arguments' = .ok (.score o') →
      SameRun host files o o' →
      (∃ c reference distorted,
        Scorable host files o c reference distorted) →
      (∃ c reference distorted,
        Scorable host files o' c reference distorted) →
      let run' := (program arguments').runOn host files stdout
      run'.files = run.files ∧ run'.result = run.result) ∧
    ∀ parallel threads perFrame,
      SameRun host files o { o with parallel, threads, perFrame } := by
  intro run
  refine ⟨?_, ?_, ?_, ?_, ?_⟩
  · by_cases hscorable : ∃ c reference distorted,
        Scorable host files o c reference distorted
    · obtain ⟨c, reference, distorted, hs⟩ := hscorable
      obtain ⟨fresh, s, hfresh, hrates, hresult, -⟩ := hs.program h stdout
      rw [completes_iff hs hfresh hrates, hresult, mapError_eq_ok]
    · obtain ⟨e, out, hrun⟩ := program_unscorable h hscorable stdout
      refine iff_of_false (fun hok => ?_) fun ⟨c, r, d, hc⟩ =>
        hscorable ⟨c, r, d, hc.toScorable⟩
      cases hok.symm.trans (congrArg Transcript.result hrun)
  · intro hs
    obtain ⟨e, out, hrun⟩ := program_unscorable h hs stdout
    exact ⟨⟨e, congrArg Transcript.result hrun⟩,
      congrArg Transcript.files hrun⟩
  · intro c reference distorted hs
    obtain ⟨fresh, s, hfresh, hrates, hresult, hfiles, hstdout⟩ :=
      hs.program h stdout
    have hlength : (statsLines c.stats.label s.frames).length
        = min reference.frameCount distorted.frameCount := by
      rw [statsLines, List.length_map, ← List.length_map FrameScore.index,
        hrates.indices, List.length_range]
    refine ⟨fresh, s, _, hfresh, hrates, rfl, hlength, ?_,
      leaves_putStats hresult hfiles, hstdout⟩
    intro i hi
    exact statsLines_numbered hrates.indices (hlength ▸ hi)
  · rintro arguments' o' h' hsame ⟨c, r, d, hs⟩ ⟨c', r', d', hs'⟩ run'
    obtain ⟨fresh, s, hfresh, hrates, hresult, hfiles, -⟩ :=
      hs.program h stdout
    obtain ⟨fresh', s', hfresh', hrates', hresult', hfiles', -⟩ :=
      hs'.program h' stdout
    have hput :=
      putStats_sameRun hsame hs hs' hfresh hfresh' hrates hrates'
    exact ⟨hfiles'.trans (hput ▸ hfiles.symm),
      hresult'.trans (hput ▸ hresult.symm)⟩
  · intro parallel threads perFrame
    exact sameRun_flags _ _ _ parallel perFrame threads

def noSpace : IoError := .other "No space left on device (os error 28)"

/-- A directory on a device that has room for so many more texts. -/
def World.limited (w : World) : Host (Directory × Nat) where
  read files path := files.1.read path
  create files path :=
    let changed := w.host.create files.1 path
    (changed.1, changed.2, files.2)
  append files path text :=
    match files.2 with
    | 0 => (.error noSpace, files)
    | room + 1 =>
        let changed := w.host.append files.1 path text
        (changed.1, changed.2, room)
  flush files _ := (.ok (), files)
  workers := w.workers

/-- With room for one text, the first of two lines is stored. -/
theorem limited_store {w : World} {d : Directory} {path name : String}
    (h : d.writable path = .ok name) (first second : String) :
    (w.limited.store (d, 1) path [first, second]).1 ≠ .ok () ∧
      (w.limited.store (d, 1) path [first, second]).2.1.read path
        = .ok first.toUTF8.data := by
  have hcreate : w.limited.create (d, 1) path
      = (.ok (), d.write name #[], 1) :=
    congrArg (fun r => (r.1, r.2, 1)) (Directory.host_create w h)
  have happend : w.limited.append (d.write name #[], 1) path first
      = (.ok (), (d.write name #[]).write name (#[] ++ first.toUTF8.data), 0) :=
    congrArg (fun r => (r.1, r.2, 0)) (Directory.host_append w
      (Directory.writable_ok h _) (Directory.read_write h _) first)
  have hlines : w.limited.appendLines path (d.write name #[], 1)
      [first, second] = (.error noSpace,
        (d.write name #[]).write name (#[] ++ first.toUTF8.data), 0) := by
    rw [Host.appendLines, happend, Host.next_of_ok rfl]
    rfl
  rw [Host.store, hcreate, Host.next_of_ok rfl, hlines,
    Host.next_of_error rfl]
  constructor
  · intro hok
    cases hok
  · rw [Directory.read_write (Directory.writable_ok h _), Array.empty_append]

/-- Two videos, and the stats of an older run. -/
def shelf : World where
  files := [("a", (Sequence.pixelFrames 2).bytes),
    ("b", (Sequence.pixelFrames 3).bytes), ("log", #[110])]

def shelfArguments : List String :=
  ["score", "a", "b", "--width", "1", "--height", "1", "--stats-file", "log"]

def shelfOptions : ScoreOptions where
  reference := some "a"
  distorted := some "b"
  config := none
  dims := ⟨1, 1⟩
  format := default
  statsFile := some "log"
  statsLabel := .vif
  parallel := false
  threads := none
  perFrame := false

/-- What is read on the shelf can be scored. -/
theorem shelf_scorable (host : Host σ) (files : σ)
    (hread : ∀ path, host.read files path = shelf.read path)
    (hworkers : ∀ count, host.workers count = .ok ()) (parallel : Bool)
    (threads : Option Nat) :
    Scorable host files { shelfOptions with parallel, threads }
      { reference := "a", distorted := "b", parallel
        stream := Scorer.pixelConfig, stats := ⟨some "log", .vif⟩ }
      (Sequence.pixelFrames 2) (Sequence.pixelFrames 3) where
  configured := ⟨"a", "b", rfl, rfl, rfl⟩
  reference_opens := ⟨(hread _).trans (by cbv), rfl, rfl⟩
  distorted_opens := ⟨(hread _).trans (by cbv), rfl, rfl⟩
  workers _ count _ := hworkers count
  memory := by
    show ∃ fresh, Scorer.allocate Scorer.pixelConfig = .ok fresh
    exact ⟨_, rfl⟩
  frames := by decide

theorem shelf_writable : shelf.writable "log" = .ok "log" := by cbv

/-- What is stored as stats does not show in a video. -/
theorem shelf_apart : shelf.host.Apart "log" "a" :=
  Directory.apart shelf shelf_writable
    (by cbv : shelf.writable "a" = .ok "a") (by decide)

/-- The old stats give way to two lines, in parallel as in sequence, and the
videos stay. On a device that has room for one line, this is left, and the run
fails. -/
theorem program_score_shelf :
    Command.ofArguments shelfArguments = .ok (.score shelfOptions) ∧
    ((program shelfArguments).runIn shelf "").result = .ok () ∧
    (∃ first second score score',
      IsStatsLine .vif 0 score first ∧ IsStatsLine .vif 1 score' second ∧
      ((program shelfArguments).runIn shelf "").directory.read "log"
        = .ok (first ++ second).toUTF8.data ∧
      let run := (program shelfArguments).runOn shelf.limited
        (shelf.toDirectory, 1) ""
      run.result ≠ .ok () ∧
        run.files.1.read "log" = .ok first.toUTF8.data) ∧
    ((program shelfArguments).runIn shelf "").directory.read "a"
      = shelf.read "a" ∧
    ((program (shelfArguments ++ ["--parallel", "--threads", "2"])).runIn
        shelf "").directory
      = ((program shelfArguments).runIn shelf "").directory := by
  have hsequence : Command.ofArguments shelfArguments
      = .ok (.score shelfOptions) := rfl
  have hparallel : Command.ofArguments
      (shelfArguments ++ ["--parallel", "--threads", "2"])
        = .ok (.score { shelfOptions with
          parallel := true, threads := some 2 }) := rfl
  have hs := shelf_scorable shelf.host shelf.toDirectory (fun _ => rfl)
    fun _ => rfl
  have hlimited := shelf_scorable shelf.limited (shelf.toDirectory, 1)
    (fun _ => rfl) fun _ => rfl
  obtain ⟨-, -, hscored, hsame, hflags⟩ :=
    program_score shelf.host shelf.toDirectory "" shelfArguments shelfOptions
      hsequence
  obtain ⟨fresh, s, lines, hfresh, hrates, rfl, hlength, hnumbered, hleaves,
    -⟩ := hscored _ _ _ (hs false none)
  obtain ⟨-, -, hscored', -⟩ :=
    program_score shelf.limited (shelf.toDirectory, 1) "" shelfArguments
      shelfOptions hsequence
  obtain ⟨fresh', s', _, hfresh', hrates', rfl, -, -, hleaves', -⟩ :=
    hscored' _ _ _ (hlimited false none)
  obtain rfl := Except.ok.inj (hfresh.symm.trans hfresh')
  obtain rfl := Except.ok.inj (hrates.outcome.symm.trans hrates'.outcome)
  have hstored := hleaves.stored "log" rfl (by decide)
  have hok : ((program shelfArguments).runIn shelf "").result = .ok () :=
    hstored.2.2 (Directory.store_ok shelf shelf_writable _)
  have hholds := hleaves.holds "log" _ rfl (by decide)
    (Directory.isFile shelf "log") hok
  have ⟨hleft, hdone⟩ := hleaves'.stored "log" rfl (by decide)
  obtain ⟨first, second, hlines⟩ := List.length_eq_two.1 hlength
  rw [hlines] at hnumbered hholds hleft hdone
  obtain ⟨frame, _, -, -, ⟨⟩, hfirst⟩ := hnumbered 0 (by simp)
  obtain ⟨frame', _, -, -, ⟨⟩, hsecond⟩ := hnumbered 1 (by simp)
  have hlimit := limited_store (w := shelf) shelf_writable first second
  refine ⟨hsequence, hok, ⟨first, second, _, _, hfirst, hsecond, ?_,
    fun h => hlimit.1 (hdone.1 h), hleft ▸ hlimit.2⟩,
    hleaves.kept "log" "a" rfl (by decide) shelf_apart,
    (hsame _ _ hparallel (hflags true (some 2) false)
      ⟨_, _, _, hs false none⟩ ⟨_, _, _, hs true (some 2)⟩).1⟩
  rwa [String.join_cons, String.join_cons, String.join_nil,
    String.append_empty] at hholds

end CommandLine

end AdditiveDetail

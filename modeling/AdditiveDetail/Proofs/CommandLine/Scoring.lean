/-
What a scoring run finds, and what it makes of it.

# Looking

A run first looks: for its configuration, for two videos, for workers.
Every step of this is told twice, as what the step comes to on a host
(`seenConfig`, `seenVideo`, `seenPool`) and as when it comes to something
(`Configures`, `Opens`). A file is a video of a layout if its picture has
samples and its length is a whole number of frames (`exists_opens_iff`).

# Scoring

Two videos of the layout are scored whatever they hold, in parallel as in
sequence, if there is memory for a scorer and a frame to score
(`scoreVideos_opened`), and only then (`of_scoreVideos_ok`).

# The order of effects

Nothing but print happens before all frames are scored. So a run is what it
finds, then what its frames come to, then a report, and each of the first
two may end it with the files as they were (`runScore_runOn`).
-/
import AdditiveDetail.Proofs.CommandLine.Scripts
import AdditiveDetail.Proofs.Scoring.Pairing
import AdditiveDetail.Proofs.Scoring.Workers

namespace AdditiveDetail

namespace CommandLine

variable {σ : Type} {host : Host σ} {files : σ} {o : ScoreOptions}
  {c : RunConfig} {reference distorted v : RawVideo} {path : String}

/-- What an error is turned into does not matter to a success. -/
theorem mapError_eq_ok {ε ε' α : Type} {r : Except ε α} {f : ε → ε'} {a : α} :
    r.mapError f = .ok a ↔ r = .ok a := by
  cases r <;> simp [Except.mapError]

-- ============================================================= configurations

/-- Options as a configuration of two videos. -/
def optionsConfig (o : ScoreOptions) (reference distorted : String) :
    RunConfig where
  reference
  distorted
  parallel := o.parallel
  stream := ⟨o.dims, o.format⟩
  stats := ⟨o.statsFile, o.statsLabel⟩

/-- The configuration that options ask for: the one that a file holds, or the
one that the options are. -/
def Configures (host : Host σ) (files : σ) (o : ScoreOptions)
    (c : RunConfig) : Prop :=
  match o.config with
  | some path => ∃ bytes text, host.read files path = .ok bytes ∧
      String.fromUTF8? ⟨bytes⟩ = some text ∧ RunConfig.ofText? text = some c
  | none => ∃ reference distorted,
      o.reference = some reference ∧ o.distorted = some distorted ∧
      c = optionsConfig o reference distorted

/-- The configuration that is seen on a host. -/
def seenConfig (host : Host σ) (files : σ) (o : ScoreOptions) :
    Except RunError RunConfig :=
  match o.config with
  | some path => do
      let text ← (host.read files path >>= decodeText).mapError
        (.configUnread path)
      match RunConfig.ofText? text with
      | some config => .ok config
      | none => .error .configInvalid
  | none =>
      match o.reference, o.distorted with
      | some reference, some distorted =>
          .ok (optionsConfig o reference distorted)
      | _, _ => .error .videosMissing

theorem sees_runConfig (host : Host σ) (files : σ) (o : ScoreOptions) :
    Action.Sees host files (runConfig o) (seenConfig host files o) := by
  unfold runConfig seenConfig
  cases o.config with
  | some path =>
      refine (Action.sees_read path).step ?_
      refine (Action.sees_ofExcept _ _).bind fun text _ => ?_
      cases RunConfig.ofText? text with
      | some config => exact Action.sees_pure config
      | none => exact Action.sees_throw _
  | none =>
      cases o.reference with
      | none => exact Action.sees_throw _
      | some reference =>
          cases o.distorted with
          | none => exact Action.sees_throw _
          | some distorted => exact Action.sees_pure _

theorem decodeText_eq_ok {bytes : Bytes} {text : String} :
    decodeText bytes = .ok text ↔ String.fromUTF8? ⟨bytes⟩ = some text := by
  unfold decodeText
  cases String.fromUTF8? ⟨bytes⟩ <;> simp

theorem seenConfig_ok_iff :
    seenConfig host files o = .ok c ↔ Configures host files o c := by
  unfold seenConfig Configures
  cases o.config with
  | some path =>
      simp only [bind_eq_ok, mapError_eq_ok, decodeText_eq_ok]
      constructor
      · rintro ⟨text, ⟨bytes, hread, htext⟩, hconfig⟩
        cases hparsed : RunConfig.ofText? text with
        | none =>
            rw [hparsed] at hconfig
            cases hconfig
        | some config =>
            rw [hparsed] at hconfig
            cases hconfig
            exact ⟨bytes, text, hread, htext, hparsed⟩
      · rintro ⟨bytes, text, hread, htext, hconfig⟩
        exact ⟨text, ⟨bytes, hread, htext⟩, by rw [hconfig]⟩
  | none =>
      cases o.reference with
      | none => simp
      | some reference =>
          cases o.distorted with
          | none => simp
          | some distorted => simp [eq_comm]

-- ===================================================================== videos

/-- The video of a layout that a file holds. That it is a video says that its
picture has samples and that its length is a whole number of frames. -/
structure Opens (host : Host σ) (files : σ) (path : String)
    (stream : Config) (v : RawVideo) : Prop where
  read : host.read files path = .ok v.bytes
  dims : v.dims = stream.dims
  format : v.format = stream.format

/-- A file holds one video of a layout. -/
theorem Opens.unique {stream : Config} (h : Opens host files path stream v)
    {v' : RawVideo} (h' : Opens host files path stream v') : v = v' := by
  obtain ⟨bytes, dims, format, nonempty, whole⟩ := v
  obtain ⟨bytes', dims', format', nonempty', whole'⟩ := v'
  obtain rfl : bytes = bytes' := Except.ok.inj (h.read.symm.trans h'.read)
  obtain rfl : dims = dims' := h.dims.trans h'.dims.symm
  obtain rfl : format = format' := h.format.trans h'.format.symm
  rfl

/-- Which files hold a video. -/
theorem exists_opens_iff {stream : Config} :
    (∃ v, Opens host files path stream v) ↔ stream.dims.Nonempty ∧
      ∃ bytes, host.read files path = .ok bytes ∧
        stream.format.frameBytes stream.dims ∣ bytes.size := by
  constructor
  · rintro ⟨v, hread, hdims, hformat⟩
    rw [← hdims, ← hformat]
    exact ⟨v.nonempty, v.bytes, hread, Nat.dvd_of_mod_eq_zero v.whole⟩
  · rintro ⟨hnonempty, bytes, hread, hwhole⟩
    obtain ⟨v, hv⟩ := (RawVideo.exists_ofFile_iff hnonempty).2 hwhole
    obtain ⟨rfl, hdims, hformat⟩ := RawVideo.ofFile_eq_ok_iff.1 hv
    exact ⟨v, hread, hdims, hformat⟩

/-- The video that is seen under a path. -/
def seenVideo (host : Host σ) (files : σ) (path : String) (stream : Config)
    (wrap : Error → RunError) : Except RunError RawVideo :=
  (RawVideo.ofFile (mapped (host.read files path)) stream.dims
    stream.format).mapError wrap

theorem sees_openVideo (host : Host σ) (files : σ) (path : String)
    (stream : Config) (wrap : Error → RunError) :
    Action.Sees host files (openVideo path stream wrap)
      (seenVideo host files path stream wrap) :=
  (Action.sees_read path).step (Action.sees_ofExcept wrap _)

theorem seenVideo_ok_iff {stream : Config} {wrap : Error → RunError} :
    seenVideo host files path stream wrap = .ok v ↔
      Opens host files path stream v := by
  unfold seenVideo
  rw [mapError_eq_ok]
  cases hread : host.read files path with
  | ok bytes =>
      have hopened : RawVideo.ofFile (mapped (.ok bytes)) stream.dims
          stream.format = .ok v ↔ _ := RawVideo.ofFile_eq_ok_iff
      rw [hopened]
      constructor
      · rintro ⟨rfl, hdims, hformat⟩
        exact ⟨hread, hdims, hformat⟩
      · rintro ⟨hread', hdims, hformat⟩
        exact ⟨Except.ok.inj (hread'.symm.trans hread), hdims, hformat⟩
  | error e =>
      constructor
      · intro h
        unfold RawVideo.ofFile at h
        split at h <;> cases h
      · rintro ⟨hread', -⟩
        cases hread'.symm.trans hread

-- ==================================================================== workers

/-- Whether the workers that were asked for are seen to start. -/
def seenPool (host : Host σ) (c : RunConfig) (threads : Option Nat) :
    Except RunError Unit :=
  match c.parallel, threads with
  | true, some count => (host.workers count).mapError .workersUnstarted
  | _, _ => .ok ()

theorem sees_startPool (host : Host σ) (files : σ) (c : RunConfig)
    (threads : Option Nat) :
    Action.Sees host files (startPool c threads)
      (seenPool host c threads) := by
  unfold startPool seenPool
  cases c.parallel with
  | false => exact Action.sees_pure ()
  | true =>
      cases threads with
      | none => exact Action.sees_pure ()
      | some count =>
          exact (Action.sees_startWorkers count).step
            (Action.sees_ofExcept .workersUnstarted _)

theorem seenPool_ok_iff {threads : Option Nat} :
    seenPool host c threads = .ok () ↔
      (c.parallel → ∀ count, threads = some count →
        host.workers count = .ok ()) := by
  unfold seenPool
  cases c.parallel with
  | false => simp
  | true =>
      cases threads with
      | none => simp
      | some count => simp [mapError_eq_ok]

-- ===================================================================== scores

/-- Where there is memory for a scorer, scoring in parallel and in sequence
come to the same. -/
theorem scoreVideos_eq {fresh : Scorer}
    (hfresh : Scorer.allocate c.stream = .ok fresh)
    (reference distorted : RawVideo) :
    scoreVideos c reference distorted
      = (Sequence.score reference distorted fresh).outcome := by
  unfold scoreVideos
  split
  · exact Sequence.outcome_scoreParallel hfresh reference distorted
  · rw [hfresh]

/-- Where there is none, both fail. -/
theorem scoreVideos_ne_ok {e : Error}
    (he : Scorer.allocate c.stream = .error e) (summary : Summary) :
    scoreVideos c reference distorted ≠ .ok summary := by
  unfold scoreVideos Sequence.scoreParallel Sequence.scoreParallelBy
  rw [he]
  split
  · cases Sequence.pairCount reference distorted c.stream <;> simp
  · simp

theorem Opens.not_foreign {stream : Config}
    (h : Opens host files path stream v) : ¬ Sequence.Foreign stream v := by
  rintro (hdims | hdepth)
  · exact hdims h.dims
  · exact hdepth (congrArg PixelFormat.depth h.format)

/-- What a new scorer makes of two videos: a score for every frame that both
have, in order, each as it rates the luma planes at its index. -/
structure Rates (reference distorted : RawVideo) (fresh : Scorer)
    (s : Summary) : Prop where
  outcome : (Sequence.score reference distorted fresh).outcome = .ok s
  indices : s.frames.map FrameScore.index
    = List.range (min reference.frameCount distorted.frameCount)
  rated : ∀ frame ∈ s.frames, Sequence.Rated reference distorted fresh frame

/-- Two videos of the layout come to scores. -/
theorem scoreVideos_opened {p q : String}
    (hr : Opens host files p c.stream reference)
    (hd : Opens host files q c.stream distorted)
    {fresh : Scorer} (hfresh : Scorer.allocate c.stream = .ok fresh)
    (hframes : 0 < distorted.frameCount) :
    ∃ summary, scoreVideos c reference distorted = .ok summary ∧
      Rates reference distorted fresh summary := by
  have hchecks : ¬ (Sequence.Foreign c.stream reference ∨
      Sequence.Foreign c.stream distorted ∨ distorted.frameCount = 0) := by
    rintro (hforeign | hforeign | hzero)
    · exact hr.not_foreign hforeign
    · exact hd.not_foreign hforeign
    · omega
  obtain ⟨summary, houtcome, hindices, hrated, -⟩ := Sequence.score_summary
    (Scorer.allocate_accounts hfresh) (Scorer.allocate_ready hfresh) hchecks
  exact ⟨summary, (scoreVideos_eq hfresh ..).trans houtcome, houtcome,
    hindices, hrated⟩

/-- Two that come to scores had memory for a scorer, and a frame to score. -/
theorem of_scoreVideos_ok {summary : Summary}
    (h : scoreVideos c reference distorted = .ok summary) :
    (∃ fresh, Scorer.allocate c.stream = .ok fresh) ∧
      0 < distorted.frameCount := by
  cases hfresh : Scorer.allocate c.stream with
  | error e => exact absurd h (scoreVideos_ne_ok hfresh summary)
  | ok fresh =>
      refine ⟨⟨fresh, rfl⟩, Nat.pos_of_ne_zero fun hzero => ?_⟩
      rw [scoreVideos_eq hfresh] at h
      obtain ⟨failure, hfailure⟩ :=
        (Sequence.score_error_iff (Scorer.allocate_accounts hfresh)).2
          (Or.inr (Or.inr hzero) : Sequence.Foreign c.stream reference ∨ _)
      cases hfailure.symm.trans h

-- ==================================================================== the run

/-- What has been found when a run starts to score. -/
structure Found where
  config : RunConfig
  reference : RawVideo
  distorted : RawVideo

/-- The configuration and the videos that are seen on a host. -/
def seenVideos (host : Host σ) (files : σ) (o : ScoreOptions) :
    Except RunError Found := do
  let config ← seenConfig host files o
  let reference ← seenVideo host files config.reference config.stream
    (.videoUnopened .reference config.reference)
  let distorted ← seenVideo host files config.distorted config.stream
    (.videoUnopened .distorted config.distorted)
  .ok { config, reference, distorted }

theorem seenVideos_ok_iff {x : Found} :
    seenVideos host files o = .ok x ↔ Configures host files o x.config ∧
      Opens host files x.config.reference x.config.stream x.reference ∧
      Opens host files x.config.distorted x.config.stream x.distorted := by
  unfold seenVideos
  simp only [bind_eq_ok, seenConfig_ok_iff, seenVideo_ok_iff]
  constructor
  · rintro ⟨c, hc, r, hr, d, hd, hx⟩
    cases hx
    exact ⟨hc, hr, hd⟩
  · rintro ⟨hc, hr, hd⟩
    exact ⟨x.config, hc, x.reference, hr, x.distorted, hd, rfl⟩

namespace Found

/-- What is printed before frames are scored. -/
def header (x : Found) : String :=
  runHeader x.config x.reference.frameCount x.distorted.frameCount

/-- What the frames come to, on a host where workers may not start. -/
def scores (x : Found) (host : Host σ) (threads : Option Nat) :
    Except RunError Summary := do
  seenPool host x.config threads
  (scoreVideos x.config x.reference x.distorted).mapError .failed

/-- Frames come to scores where the workers start. -/
theorem scores_ok_iff {x : Found} {threads : Option Nat} {s : Summary} :
    x.scores host threads = .ok s ↔
      (x.config.parallel → ∀ count, threads = some count →
        host.workers count = .ok ()) ∧
      scoreVideos x.config x.reference x.distorted = .ok s := by
  unfold scores
  simp only [bind_eq_ok, mapError_eq_ok, ← seenPool_ok_iff]
  constructor
  · rintro ⟨⟨⟩, hpool, hs⟩
    exact ⟨hpool, hs⟩
  · rintro ⟨hpool, hs⟩
    exact ⟨(), hpool, hs⟩

/-- What is left to do when all frames are scored. -/
def report (x : Found) (perFrame : Bool) (s : Summary) : Action Unit := do
  match x.config.stats.file with
  | some path => writeStats path x.config.stats.label s
  | none => pure ()
  Action.print (summaryReport s perFrame)

end Found

/-- A run looks for what it needs, prints its header, scores and reports. It
has changed nothing before it reports. -/
theorem runScore_runOn (host : Host σ) (files : σ) (o : ScoreOptions)
    (stdout : String) :
    (runScore o).run.runOn host files stdout =
      match seenVideos host files o with
      | .error e => { result := .error e, stdout, files }
      | .ok x =>
          match x.scores host o.threads with
          | .error e => {
              result := .error e, stdout := stdout ++ x.header, files }
          | .ok s =>
              (x.report o.perFrame s).run.runOn host files
                (stdout ++ x.header) := by
  unfold runScore seenVideos
  rw [(sees_runConfig host files o).runOn_bind]
  cases seenConfig host files o with
  | error e => rfl
  | ok c =>
      dsimp only [ok_bind]
      rw [(sees_openVideo host files c.reference c.stream _).runOn_bind]
      cases seenVideo host files c.reference c.stream
        (.videoUnopened .reference c.reference) with
      | error e => rfl
      | ok reference =>
          dsimp only [ok_bind]
          rw [(sees_openVideo host files c.distorted c.stream _).runOn_bind]
          cases seenVideo host files c.distorted c.stream
            (.videoUnopened .distorted c.distorted) with
          | error e => rfl
          | ok distorted =>
              dsimp only [ok_bind]
              rw [Action.runOn_ok (Action.runOn_print _),
                (sees_startPool host files c o.threads).runOn_bind]
              unfold Found.scores
              cases seenPool host c o.threads with
              | error e => rfl
              | ok _ =>
                  dsimp only [ok_bind]
                  rw [(Action.sees_ofExcept .failed _).runOn_bind]
                  cases scoreVideos c reference distorted with
                  | error e => rfl
                  | ok s => rfl

end CommandLine

end AdditiveDetail

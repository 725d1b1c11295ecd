/-
Frames in pairs.

# What is decided in front of the first frame

Five checks stand in front of a sequence. Where one is not passed nothing
has been scored or reported, and the scorer is what it was
(`score_failed`). Where all are passed, nothing behind them fails: the
luma planes of both videos are there at every index, and a scorer accepts
them (`scorePair_complete`), in whatever way the chroma of the two is
subsampled.

# What a sequence leaves behind

So a run of frames scores every index that it is given, in order, and the
scorer accounts for these scores behind those that it had given before
(`scoreFrames_complete`). The mean of a summary is formed anew from its
frames; a scorer that had given no score accounts for the same list, so
both means are one.
-/
import AdditiveDetail.Proofs.Scoring.Calls
import AdditiveDetail.Proofs.Scoring.Sequence

namespace AdditiveDetail

namespace Sequence

variable {config : Config} {s fresh : Scorer} {given : List Score}
  {reference distorted : RawVideo}

-- ================================================================ the checks

/-- A video that is not one of the configured stream: its size is another, or
its depth. How its chroma is subsampled does not matter. -/
def Foreign (config : Config) (v : RawVideo) : Prop :=
  v.dims ≠ config.dims ∨ v.format.depth ≠ config.format.depth

theorem videoChecks_passed_iff {v : RawVideo} :
    (∀ c ∈ videoChecks config v, c.passed) ↔ ¬ Foreign config v := by
  simp [videoChecks, Foreign]

theorem sequenceChecks_passed_iff :
    Check.firstError (sequenceChecks config reference distorted) = none
      ↔ ¬ (Foreign config reference ∨ Foreign config distorted
        ∨ distorted.frameCount = 0) := by
  unfold sequenceChecks
  rw [Check.firstError_eq_none_iff, List.forall_mem_append,
    List.forall_mem_append, videoChecks_passed_iff, videoChecks_passed_iff]
  simp [not_or, and_assoc]

/-- A check that is not passed ends a sequence before its first frame. -/
theorem score_failed (hs : s.config = config) {e : Error}
    (h : Check.firstError (sequenceChecks config reference distorted)
      = some e) :
    score reference distorted s
      = { outcome := .error (.error e), reported := [], scorer := s } := by
  have hcount : pairCount reference distorted config = .error e := by
    rw [pairCount_eq_run, Check.run_eq_error h]
    rfl
  unfold score
  rw [hs, hcount]

-- ================================================================= one index

/-- The frame has the score that a scorer gives to the luma planes of two
videos at its index. -/
def Rated (reference distorted : RawVideo) (s : Scorer) (frame : FrameScore) :
    Prop :=
  ∃ r d : LumaFrame, reference.readLuma frame.index = .ok r ∧
    distorted.readLuma frame.index = .ok d ∧
    (s.process r.plane d.plane).1 = .ok frame.score

/-- An index that both videos have is scored, and its score entered. -/
theorem scorePair_complete (hs : s.Accounts config given)
    (hfresh : fresh.Ready config) (hr : ¬ Foreign config reference)
    (hd : ¬ Foreign config distorted) {index : Nat}
    (hir : index < reference.frameCount)
    (hid : index < distorted.frameCount) :
    ∃ (score : Score) (s' : Scorer),
      scorePair reference distorted s index = (.ok ⟨index, score⟩, s') ∧
      Rated reference distorted fresh ⟨index, score⟩ ∧
      s'.Accounts config (given ++ [score]) := by
  obtain ⟨hrdims, hrdepth⟩ := not_or.1 hr
  obtain ⟨hddims, hddepth⟩ := not_or.1 hd
  obtain ⟨r, hread, hcheck⟩ := RawVideo.readLuma_accepted
    (not_not.1 hrdims) (not_not.1 hrdepth) hir
  obtain ⟨d, hread', hcheck'⟩ := RawVideo.readLuma_accepted
    (not_not.1 hddims) (not_not.1 hddepth) hid
  have hdims := (Scorer.dims_of_checkPlane hcheck).trans
    (Scorer.dims_of_checkPlane hcheck').symm
  obtain ⟨s', hprocess, -⟩ := hs.ready.process_accepted hcheck hcheck' hdims
  have haccounts := hs.process r.plane d.plane
  rw [hprocess] at haccounts
  refine ⟨_, s', ?_, ⟨r, d, hread, hread', ?_⟩, haccounts⟩
  · unfold scorePair
    rw [hread, hread']
    simp only [hprocess]
    rfl
  · rw [hfresh.process_eq hs.ready, hprocess]

-- =============================================================== all indices

/-- Indices that both videos have are all scored, in their order. -/
theorem scoreFrames_complete (hs : s.Accounts config given)
    (hfresh : fresh.Ready config) (hr : ¬ Foreign config reference)
    (hd : ¬ Foreign config distorted) {indices : List Nat}
    (hindices : ∀ index ∈ indices,
      index < reference.frameCount ∧ index < distorted.frameCount) :
    ∃ (frames : List FrameScore) (s' : Scorer),
      scoreFrames reference distorted indices s
        = { scored := frames, failure := none, scorer := s' } ∧
      frames.map FrameScore.index = indices ∧
      (∀ frame ∈ frames, Rated reference distorted fresh frame) ∧
      s'.Accounts config (given ++ frames.map FrameScore.score) := by
  induction indices generalizing s given with
  | nil =>
      refine ⟨[], s, rfl, rfl, fun _ h => absurd h List.not_mem_nil, ?_⟩
      rwa [List.map_nil, List.append_nil]
  | cons index rest ih =>
      obtain ⟨hir, hid⟩ := hindices index List.mem_cons_self
      obtain ⟨score, s₁, hpair, hrated, haccounts⟩ :=
        scorePair_complete hs hfresh hr hd hir hid
      obtain ⟨frames, s₂, hframes, hindex, hall, haccounts'⟩ := ih haccounts
        fun i hi => hindices i (List.mem_cons_of_mem index hi)
      refine ⟨⟨index, score⟩ :: frames, s₂, ?_, ?_, ?_, ?_⟩
      · unfold scoreFrames
        rw [hpair]
        simp only [hframes]
      · rw [List.map_cons, hindex]
      · intro frame hframe
        rcases List.mem_cons.1 hframe with rfl | hrest
        · exact hrated
        · exact hall frame hrest
      · rwa [List.append_assoc] at haccounts'

/-- A sequence that passes the checks is scored to its end. -/
theorem score_complete (hs : s.Accounts config given)
    (hfresh : fresh.Ready config)
    (h : Check.firstError (sequenceChecks config reference distorted)
      = none) :
    ∃ (frames : List FrameScore) (s' : Scorer),
      score reference distorted s = {
        outcome := .ok (Summary.ofFrames frames (distorted.frameCount
          - min reference.frameCount distorted.frameCount))
        reported := frames
        scorer := s' } ∧
      frames.map FrameScore.index
        = List.range (min reference.frameCount distorted.frameCount) ∧
      (∀ frame ∈ frames, Rated reference distorted fresh frame) ∧
      s'.Accounts config (given ++ frames.map FrameScore.score) := by
  obtain ⟨hr, hd, -⟩ : ¬ Foreign config reference ∧ ¬ Foreign config distorted
      ∧ distorted.frameCount ≠ 0 := by
    simpa only [not_or] using sequenceChecks_passed_iff.1 h
  obtain ⟨frames, s', hframes, hindex, hrated, haccounts⟩ :=
    scoreFrames_complete hs hfresh hr hd fun index hindex =>
      Nat.lt_min.1 (List.mem_range.1 hindex)
  have hcount : pairCount reference distorted config
      = .ok (min reference.frameCount distorted.frameCount) := by
    rw [pairCount_eq_run, Check.run_eq_ok h]
    rfl
  refine ⟨frames, s', ?_, hindex, hrated, haccounts⟩
  unfold score
  rw [hs.ready.config_eq, hcount]
  simp only [hframes]

-- =============================================================== the outcome

/-- A sequence fails exactly if a check is not passed. -/
theorem score_error_iff (hs : s.Accounts config given) :
    (∃ failure, (score reference distorted s).outcome = .error failure)
      ↔ Foreign config reference ∨ Foreign config distorted
        ∨ distorted.frameCount = 0 := by
  rw [← not_iff_not, ← sequenceChecks_passed_iff]
  cases h : Check.firstError (sequenceChecks config reference distorted) with
  | some e =>
      rw [score_failed hs.ready.config_eq h]
      simp
  | none =>
      obtain ⟨frames, s', hscore, -⟩ := score_complete hs hs.ready h
      rw [hscore]
      simp

/-- What a sequence that fails leaves behind. -/
theorem score_error (hs : s.Accounts config given) {failure : Failure}
    (hfailure : (score reference distorted s).outcome = .error failure) :
    (∃ e, failure = .error e ∧
      Check.firstError (sequenceChecks config reference distorted) = some e) ∧
    (score reference distorted s).reported = [] ∧
    (score reference distorted s).scorer = s := by
  cases h : Check.firstError (sequenceChecks config reference distorted) with
  | some e =>
      rw [score_failed hs.ready.config_eq h] at hfailure ⊢
      cases hfailure
      exact ⟨⟨e, rfl, rfl⟩, rfl, rfl⟩
  | none =>
      obtain ⟨frames, s', hscore, -⟩ := score_complete hs hs.ready h
      rw [hscore] at hfailure
      cases hfailure

/-- What a sequence that passes the checks gives, and what it leaves behind. -/
theorem score_summary (hs : s.Accounts config given)
    (hfresh : fresh.Ready config)
    (h : ¬ (Foreign config reference ∨ Foreign config distorted
      ∨ distorted.frameCount = 0)) :
    ∃ summary, (score reference distorted s).outcome = .ok summary ∧
      summary.frames.map FrameScore.index
        = List.range (min reference.frameCount distorted.frameCount) ∧
      (∀ frame ∈ summary.frames, Rated reference distorted fresh frame) ∧
      (score reference distorted s).reported = summary.frames ∧
      summary.frames.length + summary.passedThrough = distorted.frameCount ∧
      (score reference distorted s).scorer.frameCount
        = s.frameCount + min reference.frameCount distorted.frameCount ∧
      (s.frameCount = 0 →
        (score reference distorted s).scorer.average = summary.average) := by
  obtain ⟨frames, s', hscore, hindex, hrated, haccounts⟩ :=
    score_complete hs hfresh (sequenceChecks_passed_iff.2 h)
  have hlength : frames.length
      = min reference.frameCount distorted.frameCount := by
    rw [← List.length_map FrameScore.index, hindex, List.length_range]
  rw [hscore]
  refine ⟨_, rfl, hindex, hrated, rfl, ?_, ?_, fun hzero => ?_⟩
  · show frames.length + (distorted.frameCount - min _ _) = _
    rw [hlength]
    exact Nat.add_sub_cancel' (Nat.min_le_right ..)
  · show s'.frameCount = _
    rw [haccounts.frameCount_eq, hs.frameCount_eq, List.length_append,
      List.length_map, hlength]
  · rw [hs.frameCount_eq, List.length_eq_zero_iff] at hzero
    show s'.average = Binary.mean _
    rw [haccounts.average_eq, hzero, List.nil_append, List.map_map]
    rfl

/-- PAIRING: whatever a scorer has been asked before, scoring two videos with
it fails exactly if one of them is foreign or there is nothing to score, by
the first check that is not passed, and then nothing is reported and the
scorer is what it was. Otherwise as many frames are scored as both videos
have, in order, each as a new scorer rates the luma planes at its index.
The frames reported are those of the summary, what is passed through makes
up the distorted video, the scorer counts the frames, and if it had given
no score before, its mean is the mean of the summary. -/
theorem score_pairing (config : Config) (fresh : Scorer)
    (hfresh : Scorer.allocate config = .ok fresh) (calls : List Scorer.Call)
    (reference distorted : RawVideo) :
    let s := fresh.behind calls
    let run := score reference distorted s
    let paired := min reference.frameCount distorted.frameCount
    ((∃ failure, run.outcome = .error failure)
      ↔ Foreign config reference ∨ Foreign config distorted
        ∨ distorted.frameCount = 0) ∧
    (∀ failure, run.outcome = .error failure →
      (∃ e, failure = .error e ∧
        Check.firstError (sequenceChecks config reference distorted)
          = some e) ∧
      run.reported = [] ∧ run.scorer = s) ∧
    (¬ (Foreign config reference ∨ Foreign config distorted
        ∨ distorted.frameCount = 0) →
      ∃ summary, run.outcome = .ok summary ∧
        summary.frames.map FrameScore.index = List.range paired ∧
        (∀ frame ∈ summary.frames, Rated reference distorted fresh frame) ∧
        run.reported = summary.frames ∧
        summary.frames.length + summary.passedThrough = distorted.frameCount ∧
        run.scorer.frameCount = s.frameCount + paired ∧
        (s.frameCount = 0 → run.scorer.average = summary.average)) := by
  intro s run paired
  have hs := (Scorer.allocate_accounts hfresh).behind calls
  exact ⟨score_error_iff hs, fun failure => score_error hs,
    score_summary hs (Scorer.allocate_ready hfresh)⟩

/-- Frames of a single sample in each plane. Unlike in `Scorer.pixelConfig` no
plane is halved. -/
def pixelClip (count : Nat) : RawVideo where
  bytes := Array.replicate (count * 3) 41
  dims := ⟨1, 1⟩
  format := ⟨.none, .eight⟩
  nonempty := Scorer.pixelConfig_nonempty
  whole := by
    rw [Array.size_replicate]
    exact Nat.mul_mod_left count 3

/-- Two frames against three, behind calls of which one was refused, and no
frame to score at all. -/
theorem score_pairing_pixel : ∃ fresh summary,
    Scorer.allocate Scorer.pixelConfig = .ok fresh ∧
    (score (pixelClip 2) (pixelClip 3)
      (fresh.behind Scorer.pixelCalls)).outcome = .ok summary ∧
    summary.frames.map FrameScore.index = [0, 1] ∧
    summary.frames.length + summary.passedThrough = 3 ∧
    ∃ failure, (score (pixelClip 2) (pixelClip 0) fresh).outcome
      = .error failure := by
  obtain ⟨fresh, hfresh⟩ : ∃ s, Scorer.allocate Scorer.pixelConfig = .ok s :=
    ⟨_, rfl⟩
  have hpairing := score_pairing Scorer.pixelConfig fresh hfresh
  obtain ⟨-, -, hscored⟩ :=
    hpairing Scorer.pixelCalls (pixelClip 2) (pixelClip 3)
  obtain ⟨summary, houtcome, hindex, -, -, hlength, -⟩ := hscored <| by
    rintro ((h | h) | (h | h) | h) <;> exact absurd h (by decide)
  refine ⟨fresh, summary, hfresh, houtcome, hindex, hlength, ?_⟩
  exact (hpairing [] (pixelClip 2) (pixelClip 0)).1.2 (.inr (.inr rfl))

end Sequence

end AdditiveDetail

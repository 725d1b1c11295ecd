/-
Scoring a sequence, frame by frame.

# One scorer for all frames

What a scorer makes of the frames at an index does not depend on the
frames that it has seen (`scorePair_eq`), so a run of frames is a map over
their indices that stops at the first failure (`scoreFrames_spec`). It is
told by what a NEW scorer makes of each index, `frameScore`.

# Frames that are there

A video of the configured size and depth has a luma plane for each of its
frames, and that plane passes the checks (`readLuma_accepted`). So a
sequence that has passed the checks of videos has no failure any more.
-/
import AdditiveDetail.Proofs.Scoring.History
import AdditiveDetail.Proofs.Video.Reading
import AdditiveDetail.Scoring.Sequence

namespace AdditiveDetail

/-- Where every step succeeds, a list is mapped to what the steps give. -/
theorem mapM_ok {ε α β : Type} {g : α → Except ε β} {P : β → Prop}
    {xs : List α} (h : ∀ x ∈ xs, ∃ y, g x = .ok y ∧ P y) :
    ∃ ys, xs.mapM g = .ok ys ∧ ys.length = xs.length ∧ ∀ y ∈ ys, P y := by
  induction xs with
  | nil => exact ⟨[], rfl, rfl, fun _ hy => absurd hy List.not_mem_nil⟩
  | cons x xs ih =>
      obtain ⟨y, hy, hPy⟩ := h x List.mem_cons_self
      obtain ⟨ys, hys, hlen, hPys⟩ :=
        ih fun x' hx' => h x' (List.mem_cons_of_mem x hx')
      refine ⟨y :: ys, ?_, congrArg Nat.succ hlen, ?_⟩
      · rw [List.mapM_cons, hy, hys]
        rfl
      · intro y' hy'
        rcases List.mem_cons.1 hy' with rfl | hmem
        · exact hPy
        · exact hPys y' hmem

-- ================================================================ the scorer

/-- Two scorers of one configuration agree on every pair of planes. -/
theorem Scorer.Ready.process_eq {config : Config} {s s' : Scorer}
    (hs : s.Ready config) (hs' : s'.Ready config) (reference distorted : Plane) :
    (s.process reference distorted).1 = (s'.process reference distorted).1 := by
  cases hchecks : (do
      checkPlane config reference
      checkPlane config distorted : Except Error Unit) with
  | error e =>
      rw [process_refused (hs.config_eq ▸ hchecks),
        process_refused (hs'.config_eq ▸ hchecks)]
  | ok =>
      obtain ⟨hr, hd⟩ := checkPair_ok hchecks
      have h := (dims_of_checkPlane hr).trans (dims_of_checkPlane hd).symm
      obtain ⟨s₁, h₁, -⟩ := hs.process_accepted hr hd h
      obtain ⟨s₂, h₂, -⟩ := hs'.process_accepted hr hd h
      rw [h₁, h₂]

namespace Sequence

variable {config : Config}

-- ================================================================= one frame

/-- The score of the frames at an index, as a new scorer gives it. -/
def frameScore (reference distorted : RawVideo) (fresh : Scorer)
    (index : Nat) : Except Failure FrameScore :=
  (scorePair reference distorted fresh index).1

/-- Two scorers of one configuration agree on the frames at an index, and
stay scorers of that configuration. -/
theorem scorePair_eq (reference distorted : RawVideo) {s fresh : Scorer}
    (hs : s.Ready config) (hfresh : fresh.Ready config) (index : Nat) :
    (scorePair reference distorted s index).1
        = frameScore reference distorted fresh index ∧
      (scorePair reference distorted s index).2.Ready config := by
  unfold frameScore scorePair
  cases reference.readLuma index with
  | error e => exact ⟨rfl, hs⟩
  | ok r =>
      cases distorted.readLuma index with
      | error e => exact ⟨rfl, hs⟩
      | ok d =>
          refine ⟨?_, hs.process r.plane d.plane⟩
          simp only [hs.process_eq hfresh]

-- ================================================================ all frames

/-- What a run of frames came to: the scores, or the failure that ended
it. -/
def Progress.outcome (p : Progress) : Except Failure (List FrameScore) :=
  match p.failure with
  | some failure => .error failure
  | none => .ok p.scored

/-- A run of frames maps its indices and stops at the first failure. -/
theorem scoreFrames_spec (reference distorted : RawVideo) {s fresh : Scorer}
    (hs : s.Ready config) (hfresh : fresh.Ready config) (indices : List Nat) :
    (scoreFrames reference distorted indices s).outcome
        = indices.mapM (frameScore reference distorted fresh) ∧
      (scoreFrames reference distorted indices s).scorer.Ready config := by
  induction indices generalizing s with
  | nil => exact ⟨rfl, hs⟩
  | cons index rest ih =>
      obtain ⟨hscore, hready⟩ :=
        scorePair_eq reference distorted hs hfresh index
      unfold scoreFrames
      rw [List.mapM_cons, ← hscore]
      generalize scorePair reference distorted s index = x at hready
      obtain ⟨result, s'⟩ := x
      cases result with
      | error failure => exact ⟨rfl, hready⟩
      | ok score =>
          obtain ⟨hrest, hready'⟩ := ih hready
          refine ⟨?_, hready'⟩
          rw [← hrest]
          simp only [Progress.outcome]
          cases (scoreFrames reference distorted rest s').failure <;> rfl

/-- The outcome of a sequence whose videos pass the checks. -/
theorem score_outcome {reference distorted : RawVideo} {s fresh : Scorer}
    (hs : s.Ready config) (hfresh : fresh.Ready config) {paired : Nat}
    (hpaired : pairCount reference distorted config = .ok paired) :
    (score reference distorted s).outcome
      = ((List.range paired).mapM
          (frameScore reference distorted fresh)).map fun frames =>
          Summary.ofFrames frames (distorted.frameCount - paired) := by
  obtain ⟨hframes, -⟩ := scoreFrames_spec reference distorted hs hfresh
    (List.range paired)
  unfold score
  rw [hs.config_eq, hpaired, ← hframes]
  simp only [Progress.outcome]
  cases (scoreFrames reference distorted (List.range paired) s).failure <;> rfl

-- ============================================================ frames on file

theorem checkVideo_eq {v : RawVideo} (h : checkVideo config v = .ok ()) :
    v.dims = config.dims ∧ v.format.depth = config.format.depth := by
  unfold checkVideo at h
  by_cases hd : v.dims = config.dims
  · by_cases hf : v.format.depth = config.format.depth
    · exact ⟨hd, hf⟩
    · rw [if_neg (not_not.2 hd), if_pos hf] at h
      cases h
  · rw [if_pos hd] at h
    cases h

end Sequence

namespace RawVideo

/-- Every frame has a luma plane, and it passes the checks of a scorer for
videos of this kind. -/
theorem readLuma_accepted {config : Config} {v : RawVideo}
    (hdims : v.dims = config.dims)
    (hdepth : v.format.depth = config.format.depth) {index : Nat}
    (h : index < v.frameCount) :
    ∃ frame, v.readLuma index = .ok frame ∧
      Scorer.checkPlane config frame.plane = .ok () := by
  obtain ⟨luma, plane, -, hread, hsamples, hpdims, hpdepth⟩ := readLuma_ok h
  have hholds : plane.samples.holds config.format.depth := by
    rw [hsamples, ← hdepth]
    exact Depth.holds_samples _ luma
  refine ⟨⟨index, plane⟩, hread, ?_⟩
  unfold Scorer.checkPlane
  simp [hpdims, hdims, hpdepth, hdepth, hholds]

end RawVideo

namespace Sequence

variable {config : Config}

/-- The frames at an index that both videos have are scored, and their score
is that of their luma planes. -/
theorem frameScore_accepted {reference distorted : RawVideo} {fresh : Scorer}
    (hfresh : fresh.Ready config)
    (hr : checkVideo config reference = .ok ())
    (hd : checkVideo config distorted = .ok ()) {index : Nat}
    (hir : index < reference.frameCount) (hid : index < distorted.frameCount) :
    ∃ (r d : LumaFrame) (h : r.plane.dims = d.plane.dims),
      reference.readLuma index = .ok r ∧ distorted.readLuma index = .ok d ∧
      Scorer.checkPlane config r.plane = .ok () ∧
      Scorer.checkPlane config d.plane = .ok () ∧
      frameScore reference distorted fresh index
        = .ok ⟨index, Scorer.pairScore config r.plane d.plane h⟩ := by
  obtain ⟨hrd, hrf⟩ := checkVideo_eq hr
  obtain ⟨hdd, hdf⟩ := checkVideo_eq hd
  obtain ⟨r, hread, hcheck⟩ := RawVideo.readLuma_accepted hrd hrf hir
  obtain ⟨d, hread', hcheck'⟩ := RawVideo.readLuma_accepted hdd hdf hid
  have h := (Scorer.dims_of_checkPlane hcheck).trans
    (Scorer.dims_of_checkPlane hcheck').symm
  obtain ⟨s', hprocess, -⟩ := hfresh.process_accepted hcheck hcheck' h
  refine ⟨r, d, h, hread, hread', hcheck, hcheck', ?_⟩
  unfold frameScore scorePair
  rw [hread, hread']
  simp only [hprocess]
  rfl

theorem pairCount_eq {reference distorted : RawVideo} {paired : Nat}
    (h : pairCount reference distorted config = .ok paired) :
    checkVideo config reference = .ok () ∧
      checkVideo config distorted = .ok () ∧
      paired = min reference.frameCount distorted.frameCount := by
  unfold pairCount at h
  cases hr : checkVideo config reference with
  | error e => rw [hr] at h; cases h
  | ok =>
      cases hd : checkVideo config distorted with
      | error e => rw [hr, hd] at h; cases h
      | ok =>
          rw [hr, hd, ok_bind, ok_bind] at h
          by_cases hempty : distorted.frameCount = 0
          · rw [if_pos hempty] at h
            cases h
          · rw [if_neg hempty] at h
            exact ⟨rfl, rfl, (Except.ok.inj h).symm⟩

/-- Where the videos pass the checks, every pair of frames has a score. -/
theorem exists_frameScore {reference distorted : RawVideo} {fresh : Scorer}
    (hfresh : fresh.Ready config) {paired : Nat}
    (hpaired : pairCount reference distorted config = .ok paired)
    {index : Nat} (h : index < paired) :
    ∃ frame, frameScore reference distorted fresh index = .ok frame := by
  obtain ⟨hr, hd, rfl⟩ := pairCount_eq hpaired
  obtain ⟨hir, hid⟩ := Nat.lt_min.1 h
  obtain ⟨r, d, hdims, -, -, -, -, hscore⟩ :=
    frameScore_accepted hfresh hr hd hir hid
  exact ⟨_, hscore⟩

end Sequence

end AdditiveDetail

/-
A picture scored against itself.

Both pictures of a pair being the same is kept from scale to scale
(`Same.next`), so what is shown of one scale holds at all of them: nothing
is added, nothing is masked, and the numerator IS the denominator, as data
and not only as a number. Sums and the noise floor do the same to both.
What is left is a division of a finite number by itself, and the two ways
around a denominator of zero, both of which give one.
-/
import AdditiveDetail.Proofs.Detail.Identity
import AdditiveDetail.Proofs.Scoring.Sequence
import AdditiveDetail.Proofs.Scoring.Totals

namespace AdditiveDetail

open Binary

-- ================================================================= one scale

namespace PicturePair

variable {p : PicturePair} {f : FilterBank}

/-- Where nothing is added nothing is masked. -/
theorem threshold_of_impairment_zero
    (h : p.impairment f = Detail.zero p.dims.half)
    (scale : Fin Dims.scaleCount) : p.threshold f scale = fun _ _ => 0 := by
  unfold threshold
  rw [h, Detail.visibleAt_zero, Masking.threshold_zero]

/-- The numerator then counts all that is restored. -/
theorem num_of_impairment_zero
    (h : p.impairment f = Detail.zero p.dims.half)
    (scale : Fin Dims.scaleCount) :
    (p.scaleScore f scale).num = ((p.restored f).visibleAt scale).pooled
      (Pooling.innerRegion p.dims.half) := by
  unfold scaleScore masked
  rw [threshold_of_impairment_zero h]
  exact Detail.pooled_maskedBy_zero _ _

/-- Both pictures are the same. -/
def Same (p : PicturePair) : Prop := p.distorted = p.reference

theorem Same.distortedDetail_eq (h : p.Same) :
    p.distortedDetail f = p.referenceDetail f := by
  unfold distortedDetail referenceDetail distortedBands referenceBands
  rw [h]

theorem Same.next (h : p.Same) : (p.next f).Same := by
  unfold Same PicturePair.next distortedBands referenceBands
  simp only
  rw [h]

theorem Same.atScale (h : p.Same) (k : Nat) : (p.atScale f k).Same := by
  induction k with
  | zero => exact h
  | succ k ih => exact ih.next

theorem Same.restored_eq (h : p.Same) : p.restored f = p.referenceDetail f := by
  unfold restored
  rw [h.distortedDetail_eq, Detail.restored_self]

theorem Same.impairment_eq (h : p.Same) :
    p.impairment f = Detail.zero p.dims.half := by
  unfold impairment
  rw [h.distortedDetail_eq, Detail.impairment_self]

/-- A scale keeps all of its detail. -/
theorem Same.scaleScore_eq (h : p.Same) (scale : Fin Dims.scaleCount) :
    (p.scaleScore f scale).num = (p.scaleScore f scale).den := by
  rw [num_of_impairment_zero h.impairment_eq, h.restored_eq]
  rfl

end PicturePair

/-- A number over itself is one. -/
theorem Binary.Denotes.div_eq_one {x y : Binary64} {q : ℚ} (hx : x.Denotes q)
    (hy : y.Denotes q) (hq : q ≠ 0) : x / y = .ofNat 1 := by
  have hquotient := hx.div hy hq <| by
    rw [div_self hq, ← zpow_zero (2 : ℚ), abs_of_pos (two_zpow_pos 0)]
    exact Format.two_zpow_le_limit (by decide)
  rw [div_self hq, Format.nearest_of_holds one_denotes.holds] at hquotient
  exact hquotient.eq_of_ne_zero one_denotes one_ne_zero

/-- A number over itself, with whatever noise floor, scores one. -/
theorem Score.fold_self {x : Binary64} {q : ℚ} (hx : x.Denotes q)
    (limit : Binary64) (scales : Vector ScaleScore Dims.scaleCount) :
    (Score.fold x x limit scales).num = (Score.fold x x limit scales).den ∧
      (Score.fold x x limit scales).value = .ofNat 1 := by
  have hself {y : Binary64} {r : ℚ} (hy : y.Denotes r) :
      (if y.same 0 then .ofNat 1 else y / y) = (.ofNat 1 : Binary64) := by
    by_cases h0 : y.same 0
    · rw [if_pos h0]
    · rw [if_neg h0]
      exact hy.div_eq_one hy (mt (hy.same_iff (zero_denotes false)).2 h0)
  refine ⟨rfl, ?_⟩
  show (if (if x.less limit then 0 else x : Binary64).same 0 then .ofNat 1
    else (if x.less limit then 0 else x) / (if x.less limit then 0 else x)) = _
  by_cases hfloor : x.less limit
  · rw [if_pos hfloor]
    exact hself (zero_denotes false)
  · rw [if_neg hfloor]
    exact hself hx

-- ================================================================ all scales

namespace PicturePair

variable {p : PicturePair} {f : FilterBank}

/-- A picture scored against itself: the numerator is the denominator, in
total and at every scale, and the score is one. -/
theorem Same.score_eq (h : p.Same) (harea : p.dims.area ≤ 2 ^ 31)
    (limit : Binary64) :
    (p.score f limit).num = (p.score f limit).den ∧
      (∀ s ∈ (p.score f limit).scales, s.num = s.den) ∧
      (p.score f limit).value = .ofNat 1 := by
  have hsame (k : Fin Dims.scaleCount) :
      (p.contribution f k).num = (p.contribution f k).den :=
    (h.atScale k.val).scaleScore_eq k
  obtain ⟨num, den, hcontributes⟩ := p.exists_contributes f harea
  have hsum := total_denotes hcontributes.den_denotes hcontributes.den_le
  obtain ⟨hnum, hvalue⟩ := Score.fold_self hsum limit
    (p.score f limit).scales
  refine ⟨?_, fun s hs => ?_, ?_⟩
  · unfold score Score.ofScales
    simp only [hsame]
    exact hnum
  · obtain ⟨k, hk, rfl⟩ := Vector.getElem_of_mem hs
    rw [getElem_scales p f limit hk]
    exact hsame ⟨k, hk⟩
  · unfold score Score.ofScales
    simp only [hsame]
    exact hvalue

end PicturePair

-- =============================================================== the buffers

/-- The buffers behind a scale of the given size that found no distortion: as
much is restored as there is, nothing is added, and nothing is masked. -/
structure Bench.Undistorted {maxWidth : Nat} {capacity : Dims}
    (b : Bench maxWidth capacity) (d : Dims) : Prop where
  restored : ∃ x : Detail d,
    b.arena.reference.Shows x ∧ b.arena.restored.Shows x
  impairment : b.arena.impairment.Shows (Detail.zero d)
  threshold : ∃ h : d ≤ capacity,
    b.arena.threshold.window d h = fun _ _ => 0

theorem Bench.Scored.undistorted {maxWidth : Nat} {capacity : Dims}
    {b : Bench maxWidth capacity} {p : PicturePair} {f : FilterBank}
    {scale : Fin Dims.scaleCount} (hb : b.Scored p f scale) (h : p.Same) :
    b.Undistorted p.dims.half where
  restored := ⟨p.referenceDetail f, hb.reference, h.restored_eq ▸ hb.restored⟩
  impairment := h.impairment_eq (f := f) ▸ hb.impairment
  threshold := ⟨hb.fits,
    hb.threshold.trans
      (PicturePair.threshold_of_impairment_zero h.impairment_eq scale)⟩

-- ================================================================== the mean

/-- The mean of ones is one, as long as their count has no more digits than
double precision keeps. -/
theorem mean_of_ones {xs : List Binary64} (hne : xs ≠ [])
    (hlen : xs.length ≤ 2 ^ 53) (h : ∀ x ∈ xs, x = .ofNat 1) :
    Binary.mean xs = .ofNat 1 := by
  have hpos : 0 < xs.length := List.length_pos_iff.2 hne
  have hsum : (xs.map fun _ => 1).sum = xs.length := by simp
  have hdenotes : (Binary.sum xs).Denotes xs.length := by
    rw [← hsum]
    refine sum_denotes ?_ (by rw [hsum]; exact hlen) (by decide) (by decide)
    rw [List.forall₂_map_right_iff, List.forall₂_same]
    intro x hx
    rw [h x hx, Nat.cast_one]
    exact one_denotes
  have hcount := ofNat_denotes_self (f := .binary64) hlen (by decide)
    (by decide)
  have hq : (xs.length : ℚ) ≠ 0 := Nat.cast_ne_zero.2 hpos.ne'
  unfold Binary.mean
  rw [if_neg (by simpa using hne)]
  exact hdenotes.div_eq_one hcount hq

-- ================================================================= one plane

/-- The pair of a plane with itself. -/
theorem Plane.same_ofPlanes (p : Plane) :
    (PicturePair.ofPlanes p p rfl).Same := rfl

namespace Scorer

/-- The score of an accepted plane with itself. -/
theorem pairScore_self {config : Config} (harea : config.dims.area ≤ 2 ^ 31)
    {p : Plane} (hp : checkPlane config p = .ok ()) :
    (pairScore config p p rfl).num = (pairScore config p p rfl).den ∧
      (∀ s ∈ (pairScore config p p rfl).scales, s.num = s.den) ∧
      (pairScore config p p rfl).value = .ofNat 1 := by
  rw [← dims_of_checkPlane hp] at harea
  exact p.same_ofPlanes.score_eq harea config.noiseFloor

/-- The buffers of a ready scorer, behind each scale of an accepted plane
with itself. -/
theorem Ready.throughScale_self {config : Config} {s : Scorer}
    (hs : s.Ready config) {p : Plane} (hp : checkPlane config p = .ok ())
    {k : Nat} (hk : k < Dims.scaleCount) :
    ∃ contribution b,
      s.bench.throughScale p.image p.image k = .ok (contribution, b) ∧
      b.Undistorted (config.dims.atScale k) := by
  obtain ⟨b, hb, hscored⟩ := hs.throughScale_scored hp rfl hk
  have hundistorted := hscored.undistorted (p.same_ofPlanes.atScale k)
  have hsize : (PicturePair.ofPlanes p p rfl).dims = config.dims :=
    dims_of_checkPlane hp
  rw [PicturePair.dims_half_atScale, hsize] at hundistorted
  exact ⟨_, b, hb, hundistorted⟩

end Scorer

-- ================================================================= sequences

namespace Sequence

/-- A video with itself, by a ready scorer. -/
theorem score_self {config : Config} {s : Scorer} (hs : s.Ready config)
    (harea : config.dims.area ≤ 2 ^ 31) {v : RawVideo}
    (hdims : v.dims = config.dims)
    (hdepth : v.format.depth = config.format.depth) (hpos : 0 < v.frameCount)
    (hlt : v.frameCount < 2 ^ 53) :
    ∃ summary, (score v v s).outcome = .ok summary ∧
      summary.frames.length = v.frameCount ∧
      (∀ frame ∈ summary.frames, frame.score.value = .ofNat 1) ∧
      summary.average = .ofNat 1 := by
  have hcheck : checkVideo config v = .ok () := by
    unfold checkVideo
    rw [if_neg (not_not.2 hdims), if_neg (not_not.2 hdepth)]
  have hpaired : pairCount v v config = .ok v.frameCount := by
    unfold pairCount
    rw [hcheck, ok_bind, ok_bind, if_neg hpos.ne', Nat.min_self]
    rfl
  have hframe : ∀ index ∈ List.range v.frameCount, ∃ frame,
      frameScore v v s index = .ok frame ∧
        frame.score.value = .ofNat 1 := by
    intro index hindex
    have hlt := List.mem_range.1 hindex
    obtain ⟨r, d, h, hr, hd, hcheckr, -, hscore⟩ :=
      frameScore_accepted hs hcheck hcheck hlt hlt
    obtain rfl : r = d := Except.ok.inj (hr.symm.trans hd)
    exact ⟨_, hscore, (Scorer.pairScore_self harea hcheckr).2.2⟩
  obtain ⟨frames, hframes, hlen, hvalues⟩ := mapM_ok hframe
  rw [List.length_range] at hlen
  have houtcome := score_outcome hs hs hpaired
  rw [hframes] at houtcome
  refine ⟨_, houtcome, hlen, hvalues, ?_⟩
  apply mean_of_ones
  · intro hnil
    have := congrArg List.length hnil
    rw [List.length_map, hlen] at this
    exact hpos.ne' this
  · rw [List.length_map, hlen]
    exact hlt.le
  · intro x hx
    obtain ⟨frame, hframe, rfl⟩ := List.mem_map.1 hx
    exact hvalues frame hframe

end Sequence

end AdditiveDetail

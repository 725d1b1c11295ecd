/-
Scoring stays inside its buffers.

# The indexed run

`computeIndexed` is scoring on the machine of `index?`: the transform, the
stages and the copies between scales are loops over natural numbers, and
every cell, slice and reflected index is looked up. It stops where a cell
is missing, where a source is wider than the scratch rows, where a window
is larger than its buffer, where the sizes of two bands that belong
together differ, and where a region leaves its band. A result of it says
that nothing of this happened.

# Sizes

The buffers are allocated for the sub-bands of the first scale, and each
scale works in the corner that its size selects. `Bench.Sized` is what
the scales hand on to each other: all windows have the one size of the
scale, which fits into the buffers and the scratch rows. The sizes are
those of the pyramid, the axes of the picture over powers of two, rounded
up (`Dims.atScale_eq`); they do not grow and are never empty.

# Any call

A scorer keeps its configuration through any calls (`Ready.after`), and
nothing else enters. So whatever it has seen, the indexed run of an
accepted pair has the result of the run, buffers included.
-/
import Mathlib.Data.Rat.Floor
import AdditiveDetail.Proofs.Detail.Indexed
import AdditiveDetail.Proofs.Scoring.History
import AdditiveDetail.Proofs.Scoring.Machine

namespace AdditiveDetail

-- =============================================================== the pyramid

namespace Dims

variable {d : Dims}

/-- No scale is empty. -/
theorem atScale_nonempty (d : Dims) (k : Nat) : (d.atScale k).Nonempty := by
  cases k with
  | zero => exact half_nonempty d
  | succ k => exact half_nonempty (d.atScale k)

/-- Scales do not grow. -/
theorem atScale_succ_le (d : Dims) (k : Nat) :
    d.atScale (k + 1) ≤ d.atScale k :=
  half_le (d.atScale_nonempty k)

/-- The pyramid has a size for each scale. -/
theorem getElem?_pyramid {k : Nat} {size : Dims} :
    d.pyramid[k]? = some size ↔ k < scaleCount ∧ d.atScale k = size := by
  unfold pyramid
  rw [List.getElem?_map, Option.map_eq_some_iff]
  simp only [List.getElem?_eq_some_iff, List.getElem_range,
    List.length_range]
  constructor
  · rintro ⟨_, ⟨hk, rfl⟩, hsize⟩
    exact ⟨hk, hsize⟩
  · rintro ⟨hk, hsize⟩
    exact ⟨k, ⟨hk, rfl⟩, hsize⟩

/-- What a half fits into: halving is the least such size. -/
theorem half_le_iff (h : d.Nonempty) (c : Dims) :
    d.half ≤ c ↔ d ≤ ⟨c.width * 2, c.height * 2⟩ := by
  have hw := h.width_pos
  have hh := h.height_pos
  show max 1 ((d.width + 1) / 2) ≤ c.width ∧
      max 1 ((d.height + 1) / 2) ≤ c.height
    ↔ d.width ≤ c.width * 2 ∧ d.height ≤ c.height * 2
  omega

theorem atScale_le_iff (h : d.Nonempty) (k : Nat) (c : Dims) :
    d.atScale k ≤ c
      ↔ d ≤ ⟨c.width * 2 ^ (k + 1), c.height * 2 ^ (k + 1)⟩ := by
  induction k generalizing c with
  | zero => exact half_le_iff h c
  | succ k ih =>
      have hpow : 2 ^ (k + 1 + 1) = 2 * 2 ^ (k + 1) := by ring
      rw [hpow, ← Nat.mul_assoc, ← Nat.mul_assoc]
      exact (half_le_iff (d.atScale_nonempty k) c).trans (ih _)

/-- THE PYRAMID: a scale halves each axis of the picture once more than the
scale before, rounded up. -/
theorem atScale_eq (h : d.Nonempty) (k : Nat) :
    d.atScale k = ⟨⌈(d.width / 2 ^ (k + 1) : ℚ)⌉₊,
      ⌈(d.height / 2 ^ (k + 1) : ℚ)⌉₊⟩ := by
  have hceil (n m : Nat) :
      ⌈(n / 2 ^ (k + 1) : ℚ)⌉₊ ≤ m ↔ n ≤ m * 2 ^ (k + 1) := by
    rw [Nat.ceil_le, div_le_iff₀ (by positivity)]
    exact_mod_cast Iff.rfl
  have hleast := (atScale_le_iff h k _).1 (le_refl (d.atScale k))
  have hfits := (atScale_le_iff h k ⟨⌈(d.width / 2 ^ (k + 1) : ℚ)⌉₊,
    ⌈(d.height / 2 ^ (k + 1) : ℚ)⌉₊⟩).2
      ⟨(hceil ..).1 (Nat.le_refl _), (hceil ..).1 (Nat.le_refl _)⟩
  have hw := Nat.le_antisymm hfits.1 ((hceil ..).2 hleast.1)
  have hh := Nat.le_antisymm hfits.2 ((hceil ..).2 hleast.2)
  calc d.atScale k = ⟨(d.atScale k).width, (d.atScale k).height⟩ := rfl
    _ = _ := by rw [hw, hh]

example : (Dims.mk 5 9).pyramid = [⟨3, 5⟩, ⟨2, 3⟩, ⟨1, 2⟩, ⟨1, 1⟩] := by
  decide

end Dims

-- =========================================================== the indexed run

/-- `handOff` with look-ups: the copies go cell by cell, and each window
that is written has the size of the one that is read. -/
def Arena.handOffIndexed {capacity : Dims} (a : Arena capacity) :
    Option (Arena capacity) :=
  if a.reference.dims = a.distorted.dims then do
    let referenceScale ← a.referenceScale.writeIndexed a.reference.dims
      (a.reference.view .approximation).get?
    let distortedScale ← a.distortedScale.writeIndexed a.reference.dims
      (a.distorted.view .approximation).get?
    return { a with referenceScale, distortedScale }
  else none

namespace Bench

variable {capacity : Dims} {maxWidth : Nat}

/-- `scoreScale` with look-ups. -/
def scoreScaleIndexed (b : Bench maxWidth capacity) (scale : Nat) :
    Option (ScaleScore × Bench maxWidth capacity) := do
  let a := b.arena
  let (restored, impairment) ←
    a.reference.decoupleIndexed a.distorted a.restored a.impairment
  let visibleReference ←
    a.reference.filterVisibleIndexed scale a.visibleReference
  let visibleRestored ← restored.filterVisibleIndexed scale a.visibleRestored
  let visibleImpairment ←
    impairment.filterVisibleIndexed scale a.visibleImpairment
  let threshold ← a.threshold.writeThresholdIndexed visibleImpairment
  let masked ← visibleRestored.maskByIndexed threshold a.masked
  let num ← masked.contributionIndexed Pooling.borderFactor
  let den ← visibleReference.contributionIndexed Pooling.borderFactor
  return ({ num, den }, { b with
    arena := { a with
      restored, impairment, visibleReference, visibleRestored
      visibleImpairment, threshold, masked } })

/-- A machine that looks up every cell. -/
def Stages.indexed : Stages maxWidth capacity where
  passes _ := .plain
  scoreScale := scoreScaleIndexed
  handOff := Arena.handOffIndexed

/-- `compute` with look-ups. -/
def computeIndexed (b : Bench maxWidth capacity)
    (reference distorted : Image) (limit : Binary64) :
    Option (Score × Bench maxWidth capacity) :=
  b.computeBy .indexed reference distorted limit

end Bench

-- ================================================================= one scale

theorem Arena.handOffIndexed_eq {capacity : Dims} (a : Arena capacity) :
    a.handOffIndexed = a.handOff.toOption := by
  unfold handOffIndexed handOff
  by_cases h : a.reference.dims = a.distorted.dims
  · have hreference := a.referenceScale.writeIndexed_eq a.reference.fits
      (a.reference.view .approximation).get?_val
    have hdistorted : a.distortedScale.writeIndexed a.reference.dims
        (a.distorted.view .approximation).get?
          = some (a.distortedScale.write a.distorted.dims a.distorted.fits
            (a.distorted.view .approximation)) := by
      rw [h]
      exact a.distortedScale.writeIndexed_eq a.distorted.fits
        (a.distorted.view .approximation).get?_val
    rw [if_pos h, if_pos h, hreference, hdistorted]
    rfl
  · rw [if_neg h, if_neg h]
    rfl

namespace Bench

variable {capacity : Dims} {maxWidth : Nat} {p : PicturePair}

/-- The stages of a scale need nothing of the buffers. -/
theorem scoreScaleIndexed_eq (b : Bench maxWidth capacity) (scale : Nat) :
    b.scoreScaleIndexed scale = (b.scoreScale scale).toOption := by
  refine bind_eq_toOption (BandSet.decoupleIndexed_eq ..) ?_
  rintro ⟨restored, impairment⟩
  refine bind_eq_toOption (BandSet.filterVisibleIndexed_eq ..) fun vx => ?_
  refine bind_eq_toOption (BandSet.filterVisibleIndexed_eq ..) fun vr => ?_
  refine bind_eq_toOption (BandSet.filterVisibleIndexed_eq ..) fun va => ?_
  refine bind_eq_toOption (Grid.writeThresholdIndexed_eq ..) fun t => ?_
  refine bind_eq_toOption (BandSet.maskByIndexed_eq ..) fun masked => ?_
  refine bind_eq_toOption (BandSet.contributionIndexed_eq ..) fun num => ?_
  exact bind_eq_toOption (BandSet.contributionIndexed_eq ..) fun den => rfl

-- ================================================================ all scales

/-- No look-up fails in any picture. -/
theorem Stages.indexed_run (p : PicturePair) (f : FilterBank) :
    (Stages.indexed : Stages maxWidth capacity).Run p f where
  reference _ _ := Transform.Passes.plain_run _ _
  distorted _ _ := Transform.Passes.plain_run _ _
  scoreScale := scoreScaleIndexed_eq
  handOff := Arena.handOffIndexed_eq

/-- In buffers that are large enough the indexed run has the result of the
run. -/
theorem computeIndexed_eq (b : Bench maxWidth capacity)
    (hw : p.dims.width ≤ maxWidth) (hfit : p.dims.half ≤ capacity)
    (limit : Binary64) :
    b.computeIndexed p.referenceImage p.distortedImage limit
      = (b.compute p.referenceImage p.distortedImage limit).toOption :=
  b.computeBy_eq hw hfit (Stages.indexed_run ..) limit

-- ===================================================================== sizes

/-- The sizes in use behind a scale: all windows have one size, which is
not empty and fits into the buffers and into the scratch rows, where the
next scale reads it. -/
structure Sized (b : Bench maxWidth capacity) (d : Dims) : Prop where
  nonempty : d.Nonempty
  fits : d ≤ capacity
  width_le : d.width ≤ maxWidth
  reference : b.arena.reference.dims = d
  distorted : b.arena.distorted.dims = d
  restored : b.arena.restored.dims = d
  impairment : b.arena.impairment.dims = d
  visibleReference : b.arena.visibleReference.dims = d
  visibleRestored : b.arena.visibleRestored.dims = d
  visibleImpairment : b.arena.visibleImpairment.dims = d
  masked : b.arena.masked.dims = d

theorem Scored.sized {b : Bench maxWidth capacity} {f : FilterBank}
    {scale : Fin Dims.scaleCount} (hs : b.Scored p f scale)
    (hw : p.dims.width ≤ maxWidth) : b.Sized p.dims.half where
  nonempty := p.dims.half_nonempty
  fits := hs.fits
  width_le := Nat.le_trans (Dims.width_le (Dims.half_le p.nonempty)) hw
  reference := hs.reference.dims_eq
  distorted := hs.distorted.dims_eq
  restored := hs.restored.dims_eq
  impairment := hs.impairment.dims_eq
  visibleReference := hs.visibleReference.dims_eq
  visibleRestored := hs.visibleRestored.dims_eq
  visibleImpairment := hs.visibleImpairment.dims_eq
  masked := hs.masked.dims_eq

end Bench

/-- The region that is pooled is a slice of its band, with cells in it. -/
theorem Pooling.pooledRegion_nonempty {d : Dims} (h : d.Nonempty) :
    ∃ r, pooledRegion d borderFactor = .ok r ∧
      r.top < r.bottom ∧ r.bottom ≤ d.height ∧
      r.left < r.right ∧ r.right ≤ d.width := by
  have htop := border_lt h.height_pos
  have hleft := border_lt h.width_pos
  refine ⟨_, pooledRegion_eq d, ?_⟩
  unfold innerRegion
  simp only
  omega

-- ================================================================== any call

namespace Scorer

/-- A pair is scored without leaving a buffer. -/
structure InBounds (s : Scorer) (reference distorted : Plane) : Prop where
  /-- The pair has a score, and the indexed run ends with it and with the
  same buffers. -/
  indexed : ∃ score b,
    s.bench.compute reference.image distorted.image s.config.noiseFloor
      = .ok (score, b) ∧
    s.bench.computeIndexed reference.image distorted.image s.config.noiseFloor
      = some (score, b) ∧
    s.process reference distorted = (.ok score, { s with
      bench := b
      frameCount := s.frameCount + 1
      scoreSum := s.scoreSum + score.value })
  /-- Every scale is reached, works at its size of the pyramid, and pools a
  region with cells. -/
  sized : ∀ k < Dims.scaleCount, ∃ d contribution b r,
    s.config.dims.pyramid[k]? = some d ∧
    s.bench.throughScale reference.image distorted.image k
      = .ok (contribution, b) ∧
    b.Sized d ∧
    Pooling.pooledRegion d Pooling.borderFactor = .ok r ∧
    r.top < r.bottom ∧ r.bottom ≤ d.height ∧
    r.left < r.right ∧ r.right ≤ d.width

theorem Ready.inBounds {config : Config} {s : Scorer} (hs : s.Ready config)
    {reference distorted : Plane}
    (hr : checkPlane config reference = .ok ())
    (hd : checkPlane config distorted = .ok ()) :
    s.InBounds reference distorted := by
  obtain rfl := hs.config_eq
  have hdims := dims_of_checkPlane hr
  have h := hdims.trans (dims_of_checkPlane hd).symm
  have hw : reference.dims.width ≤ s.config.dims.width :=
    Nat.le_of_eq (congrArg Dims.width hdims)
  constructor
  · obtain ⟨b, hb, -⟩ := s.bench.compute_eq (.ofPlanes reference distorted h)
      hw (hdims ▸ Dims.le_refl _) s.config.noiseFloor
    have hindexed := s.bench.computeIndexed_eq
      (p := .ofPlanes reference distorted h) hw (hdims ▸ Dims.le_refl _)
      s.config.noiseFloor
    rw [hb] at hindexed
    rw [PicturePair.distortedImage_ofPlanes] at hb hindexed
    refine ⟨_, b, hb, hindexed, ?_⟩
    unfold Scorer.process Scorer.score
    rw [hr, hd]
    change s.bench.compute reference.image distorted.image _ = _ at hb
    simp only [hb]
    rfl
  · intro k hk
    obtain ⟨b, hb, hscored⟩ := hs.throughScale_scored hr h hk
    have hsized := hscored.sized (PicturePair.width_atScale_le _ _ hw k)
    rw [PicturePair.dims_half_atScale] at hsized
    obtain ⟨r, hregion⟩ := Pooling.pooledRegion_nonempty hsized.nonempty
    have hsize := Dims.getElem?_pyramid.2
      ⟨hk, congrArg (Dims.atScale · k) hdims.symm⟩
    exact ⟨_, _, b, r, hsize, hb, hsized, hregion⟩

/-- INDEX SAFETY: a picture of at most `2 ^ 31` samples can be scored.
The sizes of its pyramid are its axes over powers of two, rounded up; they
are not empty and do not grow. And whatever calls a scorer has seen, it
scores an accepted pair without leaving a buffer, at these sizes. -/
theorem process_inBounds (config : Config) (h : config.dims.Nonempty)
    (harea : config.dims.area ≤ 2 ^ 31) :
    (∀ k < Dims.scaleCount, ∃ d, config.dims.pyramid[k]? = some d ∧
      d = ⟨⌈(config.dims.width / 2 ^ (k + 1) : ℚ)⌉₊,
        ⌈(config.dims.height / 2 ^ (k + 1) : ℚ)⌉₊⟩ ∧
      1 ≤ d.width ∧ 1 ≤ d.height ∧
      ∀ next, config.dims.pyramid[k + 1]? = some next → next ≤ d) ∧
    ∃ fresh, allocate config = .ok fresh ∧
      ∀ (history : List (Plane × Plane)) (reference distorted : Plane),
        checkPlane config reference = .ok () →
        checkPlane config distorted = .ok () →
        (fresh.after history).InBounds reference distorted := by
  constructor
  · intro k hk
    have hne := config.dims.atScale_nonempty k
    refine ⟨_, Dims.getElem?_pyramid.2 ⟨hk, rfl⟩, Dims.atScale_eq h k,
      hne.width_pos, hne.height_pos, fun next hnext => ?_⟩
    obtain ⟨-, rfl⟩ := Dims.getElem?_pyramid.1 hnext
    exact Dims.atScale_succ_le _ k
  · obtain ⟨fresh, hfresh⟩ := exists_allocate h harea
    refine ⟨fresh, hfresh, fun history reference distorted hr hd => ?_⟩
    exact ((allocate_ready hfresh).after history).inBounds hr hd

/-- A single sample: every filter and every neighbourhood reaches past the
edges, at every scale. -/
theorem process_inBounds_pixel : ∃ fresh, allocate pixelConfig = .ok fresh ∧
    (fresh.after pixelHistory).InBounds (pixelPlane 1) (pixelPlane 200) := by
  obtain ⟨-, fresh, hfresh, hpair⟩ :=
    process_inBounds pixelConfig (by decide) (by decide)
  exact ⟨fresh, hfresh, hpair pixelHistory _ _ rfl rfl⟩

end Scorer

end AdditiveDetail

/-
Scoring does not overflow.

# Four levels

Every level that a picture goes through lets its samples reach further: a
low-pass filter has a gain above one, and it is applied twice per level.
Sixteen bits are enough because scoring stops in time. From samples of at
most ten bits the bounds grow to about 31 400 in the detail of the fourth
scale; its approximation would leave sixteen bits, and no scale reads it.

# The checked run

`computeChecked` is scoring on a machine whose transforms check their
arithmetic, four scales of two pictures each, and which does everything
else as it is. That it has a result says that none of its eight transforms
met an overflow or a lossy narrowing, and that this is the result of
`compute`, buffers included, says that the checks were all that was added.
-/
import AdditiveDetail.Proofs.Scoring.History
import AdditiveDetail.Proofs.Scoring.Machine
import AdditiveDetail.Proofs.Wavelet.Checked

namespace AdditiveDetail

-- =========================================================== the checked run

/-- The bands of a scale that are read again: its detail, and its
approximation where another scale starts from it. -/
def Band.isRead (scale : Nat) : Band → Bool
  | .approximation => scale + 1 < Dims.scaleCount
  | .detail _ => true

namespace Bench

variable {capacity : Dims} {maxWidth : Nat}

/-- A machine that checks the arithmetic of its transforms. -/
def Stages.checked : Stages maxWidth capacity where
  passes scale := .checked (Band.isRead scale)
  scoreScale b scale := (b.scoreScale scale).toOption
  handOff a := a.handOff.toOption

/-- `compute` with checks. -/
def computeChecked (b : Bench maxWidth capacity)
    (reference distorted : Image) (limit : Binary64) :
    Option (Score × Bench maxWidth capacity) :=
  b.computeBy .checked reference distorted limit

end Bench

-- ================================================================ the bounds

namespace Bounds

/-- Bounds of the pictures that a scale starts from. -/
def atScale (b : Bounds) (f : FilterBank) : Nat → Bounds
  | 0 => b
  | k + 1 => (b.atScale f k).band f .approximation

/-- All scales have headroom over pictures within the bounds. -/
def ScoringHeadroom (b : Bounds) (f : FilterBank) : Prop :=
  ∀ k < Dims.scaleCount, (b.atScale f k).LevelHeadroom f (Band.isRead k)

instance (b : Bounds) (f : FilterBank) : Decidable (b.ScoringHeadroom f) :=
  inferInstanceAs (Decidable (∀ k < Dims.scaleCount, _))

end Bounds

namespace PicturePair

variable {p : PicturePair} {f : FilterBank} {b : Bounds}

/-- Both pictures have their samples within the bounds. -/
structure Within (p : PicturePair) (b : Bounds) : Prop where
  reference : ∀ i j, p.reference i j ∈ b
  distorted : ∀ i j, p.distorted i j ∈ b

/-- One level. -/
theorem Within.next (hp : p.Within b) {lossless : Band → Bool}
    (hb : b.LevelHeadroom f lossless) (h : lossless .approximation) :
    (p.next f).Within (b.band f .approximation) where
  reference := hb.subBand_mem p.nonempty hp.reference h
  distorted := hb.subBand_mem p.nonempty hp.distorted h

/-- All levels, as far as they are read. -/
theorem Within.atScale (hp : p.Within b) (hb : b.ScoringHeadroom f) {k : Nat}
    (hk : k < Dims.scaleCount) :
    (p.atScale f k).Within (b.atScale f k) := by
  induction k with
  | zero => exact hp
  | succ k ih =>
      have hk' : k < Dims.scaleCount := Nat.lt_of_succ_lt hk
      exact (ih hk').next (hb k hk') (decide_eq_true hk)

end PicturePair

-- ================================================================ all scales

namespace Bench

variable {capacity : Dims} {maxWidth : Nat} {p : PicturePair} {range : Bounds}

/-- Over pictures within bounds that leave headroom at all scales, no check
fails. -/
theorem Stages.checked_run {f : FilterBank} (hb : range.ScoringHeadroom f)
    (hp : p.Within range) :
    (Stages.checked : Stages maxWidth capacity).Run p f where
  reference k hk :=
    Transform.Passes.checked_run (hb k hk) (hp.atScale hb hk).reference
  distorted k hk :=
    Transform.Passes.checked_run (hb k hk) (hp.atScale hb hk).distorted
  scoreScale _ _ := rfl
  handOff _ := rfl

theorem computeChecked_eq (b : Bench maxWidth capacity)
    (hw : p.dims.width ≤ maxWidth) (hfit : p.dims.half ≤ capacity)
    (hb : range.ScoringHeadroom b.transform.filters) (hp : p.Within range)
    (limit : Binary64) :
    b.computeChecked p.referenceImage p.distortedImage limit
      = (b.compute p.referenceImage p.distortedImage limit).toOption :=
  b.computeBy_eq hw hfit (Stages.checked_run hb hp) limit

end Bench

-- ======================================================== the filters in use

namespace Bounds

/-- What samples of at most ten bits lie between. -/
def pixel : Bounds := ⟨0, 2 ^ 10 - 1⟩

/-- Four scales leave headroom. -/
theorem pixel_headroom : pixel.ScoringHeadroom FilterBank.daubechies := by
  rw [FilterBank.daubechies_eq]
  decide

/-- The detail of the last scale just fits into sixteen bits; its
approximation would not. -/
example : (pixel.atScale FilterBank.daubechies 3).band FilterBank.daubechies
      (.detail .horizontal) = ⟨-31410, 31408⟩ ∧
    pixel.atScale FilterBank.daubechies 4 = ⟨-23238, 39577⟩ := by
  rw [FilterBank.daubechies_eq]
  decide

end Bounds

-- ==================================================================== planes

/-- Every sample fits the depth that the plane declares, one of those that
are scored. -/
def Plane.FitsDepth (p : Plane) : Prop :=
  ∃ depth : Depth, p.depth = depth.bits ∧
    ∀ i j, p.sample i j < 2 ^ depth.bits

theorem Plane.FitsDepth.sample_mem {p : Plane} (h : p.FitsDepth)
    (i : Fin p.dims.height) (j : Fin p.dims.width) :
    (p.sample i j : Int) ∈ Bounds.pixel := by
  obtain ⟨depth, -, hsample⟩ := h
  have hbits : 2 ^ depth.bits ≤ 2 ^ 10 := by cases depth <;> decide
  have hlt := Nat.lt_of_lt_of_le (hsample i j) hbits
  constructor
  · exact Int.natCast_nonneg _
  · show (p.sample i j : Int) ≤ 2 ^ 10 - 1
    omega

theorem PicturePair.within_ofPlanes {reference distorted : Plane}
    (h : reference.dims = distorted.dims) (hr : reference.FitsDepth)
    (hd : distorted.FitsDepth) :
    (ofPlanes reference distorted h).Within Bounds.pixel where
  reference := hr.sample_mem
  distorted _ _ := hd.sample_mem _ _

namespace Bench

variable {capacity : Dims} {maxWidth : Nat}

/-- NO OVERFLOW: planes whose samples fit the depth that they declare are
scored, in any buffers that are large enough, and the run in which every
product, every sum and every sample that is read again is checked ends
with the same score and the same buffers. -/
theorem computeChecked_planes (b : Bench maxWidth capacity)
    (hfilters : b.transform.filters = FilterBank.daubechies)
    (reference distorted : Plane) (hr : reference.FitsDepth)
    (hd : distorted.FitsDepth) (hdims : reference.dims = distorted.dims)
    (hw : reference.dims.width ≤ maxWidth)
    (hfit : reference.dims.half ≤ capacity) (limit : Binary64) :
    ∃ score b',
      b.compute reference.image distorted.image limit = .ok (score, b') ∧
      b.computeChecked reference.image distorted.image limit
        = some (score, b') := by
  have hheadroom := Bounds.pixel_headroom
  rw [← hfilters] at hheadroom
  have hwithin := PicturePair.within_ofPlanes hdims hr hd
  have hchecked := b.computeChecked_eq hw hfit hheadroom hwithin limit
  obtain ⟨b', hrun, -⟩ := b.compute_eq
    (.ofPlanes reference distorted hdims) hw hfit limit
  rw [hrun] at hchecked
  rw [PicturePair.distortedImage_ofPlanes] at hrun hchecked
  exact ⟨_, b', hrun, hchecked⟩

theorem computeChecked_oddPlanes : ∃ fresh,
    Scorer.allocate Scorer.oddConfig = .ok fresh ∧
      ∃ score b', fresh.bench.computeChecked (Scorer.oddPlane 255 0).image
        (Scorer.oddPlane 0 255).image 0 = some (score, b') := by
  obtain ⟨fresh, hfresh⟩ : ∃ s, Scorer.allocate Scorer.oddConfig = .ok s :=
    ⟨_, rfl⟩
  have hready := Scorer.allocate_ready hfresh
  have hfits (x y : UInt8) : (Scorer.oddPlane x y).FitsDepth :=
    ⟨.eight, rfl, fun _ _ => UInt8.toNat_lt _⟩
  obtain ⟨score, b', -, hchecked⟩ := fresh.bench.computeChecked_planes
    hready.filters_eq (Scorer.oddPlane 255 0) (Scorer.oddPlane 0 255)
    (hfits ..) (hfits ..) rfl (by rw [hready.config_eq]; decide)
    (by rw [hready.config_eq]; decide) 0
  exact ⟨fresh, hfresh, score, b', hchecked⟩

end Bench

end AdditiveDetail

/-
The buffers that one stream is scored in. They are allocated once, for
the sub-bands of the first scale, and every later scale works in their
top left corner. Nothing is cleared between scales or between frames:
each stage of a scale writes the window that the next stage reads.

# The order of the stages

`level` takes two pictures through one scale: both are decomposed, the
distorted detail is split against the reference, three sets of details
are weighted by visibility, the impairment makes the threshold, and what
the threshold leaves of the restored detail is pooled beside the
reference detail. `handOff` then copies the two approximations, which
are the pictures of the next scale.
-/
import AdditiveDetail.Detail.Decoupling
import AdditiveDetail.Detail.Masking
import AdditiveDetail.Detail.Pooling
import AdditiveDetail.Detail.Visibility
import AdditiveDetail.Score
import AdditiveDetail.Wavelet.Transform

namespace AdditiveDetail

/-- Buffers for sub-bands of up to the given size. -/
structure Arena (capacity : Dims) where
  /-- The reference picture of the next scale. -/
  referenceScale : Grid Int16 capacity
  /-- The distorted picture of the next scale. -/
  distortedScale : Grid Int16 capacity
  reference : BandSet capacity
  distorted : BandSet capacity
  restored : BandSet capacity
  impairment : BandSet capacity
  visibleReference : BandSet capacity
  visibleRestored : BandSet capacity
  visibleImpairment : BandSet capacity
  threshold : Grid Int16 capacity
  masked : BandSet capacity

namespace Arena

variable {capacity : Dims} {maxWidth : Nat}

/-- Buffers of zeros. All have the same size, so one of them can be
allocated exactly when all can. -/
def allocate (capacity : Dims) : Except Error (Arena capacity) := do
  let plane ← Grid.allocate capacity
  let bands ← BandSet.allocate capacity
  return {
    referenceScale := plane
    distortedScale := plane
    reference := bands
    distorted := bands
    restored := bands
    impairment := bands
    visibleReference := bands
    visibleRestored := bands
    visibleImpairment := bands
    threshold := plane
    masked := bands }

/-- Bytes that the buffers hold: three pictures and eight sets of four
bands, two bytes per sample. -/
def byteSize (_ : Arena capacity) : Nat :=
  3 * (capacity.area * 2) + 8 * (4 * capacity.area * 2)

/-- A corner of a buffer as a picture. -/
def picture (g : Grid Int16 capacity) (d : Dims) : Except Fault Image :=
  if h : d ≤ capacity then
    .ok { dims := d, sample := fun i j => (g.window d h i j).toInt }
  else
    .error .outOfBounds

/-- Copy the approximations to where the next scale reads its pictures.
Both must have the same size. -/
def handOff (a : Arena capacity) : Except Fault (Arena capacity) :=
  if a.reference.dims = a.distorted.dims then
    .ok { a with
      referenceScale := a.referenceScale.write a.reference.dims
        a.reference.fits (a.reference.view .approximation)
      distortedScale := a.distortedScale.write a.distorted.dims
        a.distorted.fits (a.distorted.view .approximation) }
  else
    .error .outOfBounds

end Arena

/-- Buffers and a transform: everything that scoring writes to. -/
structure Bench (maxWidth : Nat) (capacity : Dims) where
  transform : Transform maxWidth
  arena : Arena capacity

namespace Bench

variable {capacity : Dims} {maxWidth : Nat}

/-- Decompose two pictures and hand their approximations on. -/
def decompose (b : Bench maxWidth capacity) (reference distorted : Image) :
    Except Fault (Bench maxWidth capacity) := do
  let (transform, referenceBands) ←
    b.transform.forward reference b.arena.reference
  let (transform, distortedBands) ←
    transform.forward distorted b.arena.distorted
  return {
    transform
    arena := { b.arena with
      reference := referenceBands
      distorted := distortedBands } }

/-- What a scale contributes, from its decomposed pictures. -/
def scoreScale (b : Bench maxWidth capacity) (scale : Nat) :
    Except Fault (ScaleScore × Bench maxWidth capacity) := do
  let a := b.arena
  let (restored, impairment) ←
    a.reference.decouple a.distorted a.restored a.impairment
  let visibleReference ← a.reference.filterVisible scale a.visibleReference
  let visibleRestored ← restored.filterVisible scale a.visibleRestored
  let visibleImpairment ← impairment.filterVisible scale a.visibleImpairment
  let threshold ← a.threshold.writeThreshold visibleImpairment
  let masked ← visibleRestored.maskBy threshold a.masked
  let num ← masked.contribution Pooling.borderFactor
  let den ← visibleReference.contribution Pooling.borderFactor
  return ({ num, den }, { b with
    arena := { a with
      restored, impairment, visibleReference, visibleRestored
      visibleImpairment, threshold, masked } })

/-- Take two pictures through one scale. -/
def level (b : Bench maxWidth capacity) (scale : Nat)
    (reference distorted : Image) :
    Except Fault (ScaleScore × Bench maxWidth capacity) := do
  let b ← b.decompose reference distorted
  let (score, b) ← b.scoreScale scale
  let arena ← b.arena.handOff
  return (score, { b with arena })

/-- Take the approximations of the scale before through one scale. -/
def nextLevel (b : Bench maxWidth capacity) (scale : Nat) :
    Except Fault (ScaleScore × Bench maxWidth capacity) := do
  let d := b.arena.distorted.dims
  let reference ← Arena.picture b.arena.referenceScale d
  let distorted ← Arena.picture b.arena.distortedScale d
  b.level scale reference distorted

/-- Score two pictures over all scales. -/
def compute (b : Bench maxWidth capacity) (reference distorted : Image)
    (limit : Binary64) :
    Except Fault (Score × Bench maxWidth capacity) := do
  let (s₀, b) ← b.level 0 reference distorted
  let (s₁, b) ← b.nextLevel 1
  let (s₂, b) ← b.nextLevel 2
  let (s₃, b) ← b.nextLevel 3
  return (Score.ofScales limit s₀ s₁ s₂ s₃, b)

end Bench

end AdditiveDetail

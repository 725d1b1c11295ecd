/-
Splitting distorted detail into what the distortion restored of the
reference and what it added to it.

At each place the restored candidate of an orientation is the reference
coefficient times the gain. Where the horizontal and the vertical detail
of the two pictures point the same way, to within the angle limit, the
distorted coefficients themselves are the candidates, in all three
orientations. The restored detail is the candidate rounded up; the
impairment is what the distorted coefficient exceeds the UNROUNDED
candidate by, rounded up.
-/
import AdditiveDetail.Band
import AdditiveDetail.Sample
import AdditiveDetail.Detail.Gain

namespace AdditiveDetail

namespace Binary

/-- The sample that a number rounds up to, brought into the range of
samples. -/
@[inline]
def ceilSample {f : Format} (x : Binary f) : Int16 :=
  Int16.ofInt (x.ceilInt (-32768) 32767)

end Binary

/-- A distorted coefficient, split. -/
structure Split where
  restored : Int16
  impairment : Int16
  deriving DecidableEq, Inhabited

namespace Split

/-- Split a coefficient along a candidate. -/
@[inline]
def along (distorted : Int16) (candidate : Binary32) : Split where
  restored := candidate.ceilSample
  impairment := (Binary.ofInt distorted.toInt - candidate).ceilSample

/-- The details of one place, split. -/
@[inline]
def ofDetails (reference distorted : Details Int16) : Details Split :=
  let agree := withinAngle reference.horizontal.toInt
    reference.vertical.toInt distorted.horizontal.toInt
    distorted.vertical.toInt cosSquaredLimit
  Details.ofFn fun o =>
    let r := reference.get o
    let t := distorted.get o
    along t (if agree then .ofInt t.toInt else sampleGain r t * .ofInt r.toInt)

end Split

namespace BandSet

variable {c : Dims}

/-- The details of one place. -/
@[inline]
def detailsAt (b : BandSet c) (i : Fin b.dims.height)
    (j : Fin b.dims.width) : Details Int16 :=
  Details.ofFn fun o => b.detail o i j

/-- Split the detail of a distorted picture against its reference. Both
results have the window of the reference. -/
def decouple {c₁ c₂ c₃ c₄ : Dims} (reference : BandSet c₁)
    (distorted : BandSet c₂) (restored : BandSet c₃)
    (impairment : BandSet c₄) :
    Except Fault (BandSet c₃ × BandSet c₄) := do
  if h : reference.dims = distorted.dims then
    let splits : Grid (Details Split) reference.dims :=
      Grid.ofRaster fun i j =>
        Split.ofDetails (reference.detailsAt i j)
          (distorted.detailsAt (h ▸ i) (h ▸ j))
    let restored ← restored.writeDetails reference.dims fun o i j =>
      ((splits.get i j).get o).restored
    let impairment ← impairment.writeDetails reference.dims fun o i j =>
      ((splits.get i j).get o).impairment
    return (restored, impairment)
  else
    throw .outOfBounds

end BandSet

end AdditiveDetail

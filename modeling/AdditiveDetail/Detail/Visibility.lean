/-
Contrast sensitivity: how visible detail is at each scale. A coefficient
is divided by the amplitude at which detail of its scale and orientation
becomes visible. Horizontal and vertical detail share an amplitude.
-/
import AdditiveDetail.Band
import AdditiveDetail.Sample
import AdditiveDetail.Binary.Arithmetic
import AdditiveDetail.Binary.Integral

namespace AdditiveDetail

-- one power on naturals, whatever else is imported
attribute [local instance(high)] instPowNat

/-- Detail along an axis, or along a diagonal. -/
inductive Visibility where
  | axis
  | diagonal
  deriving DecidableEq

namespace Visibility

def all : List Visibility := [.axis, .diagonal]

/-- Place of a class in a row of the amplitude table. -/
def index : Visibility → Nat
  | axis => 0
  | diagonal => 1

/-- The amplitude at which detail becomes visible, in quantisation steps,
for each scale. -/
def amplitudes : Visibility → Vector Binary32 Dims.scaleCount
  | axis => #v[.ofDecimal false 57534645 (-6), .ofDecimal false 31265896 (-6),
      .ofDecimal false 23056629 (-6), .ofDecimal false 21895033 (-6)]
  | diagonal => #v[.ofDecimal false 16976741 (-5),
      .ofDecimal false 69937431 (-6), .ofDecimal false 4099015 (-5),
      .ofDecimal false 31936741 (-6)]

/-- The reciprocal of an amplitude, taken in double precision, as a weight
in fixed point. -/
def reciprocalWeight (amplitude : Binary32) : Int :=
  let reciprocal : Binary64 := .ofNat 1 / amplitude.convert
  (reciprocal * .ofNat (2 ^ fractionBits)).roundHalfAway.toInt
    (-2 ^ (31 : Nat)) (2 ^ (31 : Nat) - 1)

/-- The weights of a class. -/
def weightsOf (v : Visibility) : Vector Int Dims.scaleCount :=
  v.amplitudes.map reciprocalWeight

/-- Weights of axis detail, by scale. -/
def axisWeights : Vector Int Dims.scaleCount := weightsOf .axis

/-- Weights of diagonal detail, by scale. -/
def diagonalWeights : Vector Int Dims.scaleCount := weightsOf .diagonal

/-- The weight of a class at a scale. -/
def weight (v : Visibility) (scale : Fin Dims.scaleCount) : Int :=
  match v with
  | axis => axisWeights.get scale
  | diagonal => diagonalWeights.get scale

end Visibility

namespace Orientation

/-- The visibility class of an orientation. -/
def visibility : Orientation → Visibility
  | horizontal => .axis
  | vertical => .axis
  | diagonal => .diagonal

/-- The weight of an orientation at a scale; a scale that is not scored
has none. -/
def weight (o : Orientation) (scale : Nat) : Except Fault Int :=
  if h : scale < Dims.scaleCount then
    .ok (o.visibility.weight ⟨scale, h⟩)
  else
    .error .outOfBounds

end Orientation

/-- A coefficient in units of what is visible. -/
@[inline]
def visible (weight : Int) (x : Int16) : Int16 :=
  narrow (scaleDown (weight * x.toInt))

namespace BandSet

/-- The details of a source in units of what is visible at a scale. -/
def filterVisible {c₁ c₂ : Dims} (scale : Nat) (src : BandSet c₁)
    (dst : BandSet c₂) : Except Fault (BandSet c₂) :=
  if h : scale < Dims.scaleCount then
    dst.writeDetails src.dims fun o i j =>
      visible (o.visibility.weight ⟨scale, h⟩) (src.detail o i j)
  else do
    let _ ← dst.setDims src.dims
    throw .outOfBounds

end BandSet

end AdditiveDetail

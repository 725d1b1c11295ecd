/-
Contrast masking: added detail hides restored detail near it. A threshold
is formed at each place from the added detail in the three by three
neighbourhood, in all orientations, and what is restored counts only so
far as it exceeds the threshold.

The neighbourhood is continued past the edges by reflection. The three
orientations are accumulated in a sample each time after dropping the
fraction bits, so the threshold is a sum of three floors.
-/
import AdditiveDetail.Band
import AdditiveDetail.Sample
import AdditiveDetail.Binary.Arithmetic
import AdditiveDetail.Binary.Integral
import AdditiveDetail.Wavelet.Reflection

namespace AdditiveDetail

-- one power on naturals, whatever else is imported
attribute [local instance(high)] instPowNat

namespace Masking

/-- The weight `1 / divisor` in fixed point. -/
def weight (divisor : Nat) : Int :=
  let one : Binary64 := .ofNat 1
  (one / .ofNat divisor * .ofNat (2 ^ fractionBits)).roundHalfAway.toInt
    (-2 ^ (31 : Nat)) (2 ^ (31 : Nat) - 1)

/-- Weight of the place itself: a fifteenth. -/
def centreWeight : Int := weight 15

/-- Weight of each of its eight neighbours: a thirtieth. -/
def neighbourWeight : Int := weight 30

/-- The rows and the columns around a place, and its own. -/
structure Surroundings (d : Dims) where
  above : Fin d.height
  row : Fin d.height
  below : Fin d.height
  left : Fin d.width
  column : Fin d.width
  right : Fin d.width

/-- What lies around a place, continued past the edges. -/
@[inline]
def around {d : Dims} (h : d.Nonempty) (i : Fin d.height)
    (j : Fin d.width) : Surroundings d where
  above := reflectIn (i - 1) h.height_pos
  row := i
  below := reflectIn (i + 1) h.height_pos
  left := reflectIn (j - 1) h.width_pos
  column := j
  right := reflectIn (j + 1) h.width_pos

/-- The weighted sum of the magnitudes in a neighbourhood. -/
@[inline]
def neighbourhood {d : Dims} (band : Raster Int16 d) (s : Surroundings d) :
    Int :=
  let near (i : Fin d.height) (j : Fin d.width) : Int :=
    (band i j).toInt.natAbs
  neighbourWeight *
      (near s.above s.left + near s.above s.column + near s.above s.right
        + near s.row s.left + near s.row s.right
        + near s.below s.left + near s.below s.column + near s.below s.right)
    + centreWeight * near s.row s.column

/-- The threshold at a place: the three neighbourhoods, added as samples. -/
@[inline]
def threshold {d : Dims} (impairment : Orientation → Raster Int16 d)
    (h : d.Nonempty) (i : Fin d.height) (j : Fin d.width) : Int16 :=
  let s := around h i j
  Orientation.all.foldl
    (fun sum o => sum + narrow (scaleDown (neighbourhood (impairment o) s))) 0

/-- What exceeds the threshold. -/
@[inline]
def mask (x threshold : Int16) : Int16 :=
  narrow (max 0 (x.toInt.natAbs - threshold.toInt))

end Masking

/-- Put the thresholds of an impairment into the window that it has. -/
def Grid.writeThreshold {c c₁ : Dims} (threshold : Grid Int16 c)
    (impairment : BandSet c₁) : Except Fault (Grid Int16 c) :=
  if hfit : impairment.dims ≤ c then
    if h : impairment.dims.Nonempty then
      .ok (threshold.write impairment.dims hfit
        (Masking.threshold impairment.detail h))
    else
      .ok threshold
  else
    .error .outOfBounds

namespace BandSet

/-- The restored detail above the threshold. -/
def maskBy {c₁ c₂ c₃ : Dims} (restored : BandSet c₁)
    (threshold : Grid Int16 c₂) (masked : BandSet c₃) :
    Except Fault (BandSet c₃) :=
  if h : restored.dims ≤ c₂ then
    masked.writeDetails restored.dims fun o i j =>
      Masking.mask (restored.detail o i j)
        (threshold.window restored.dims h i j)
  else do
    let _ ← masked.setDims restored.dims
    throw .outOfBounds

end BandSet

end AdditiveDetail

/-
The analysis filters of the wavelet transform: four taps each, a low-pass
and a high-pass, in fixed point.

The coefficients are given as single precision numbers. Each becomes a
weight with `fractionBits` fraction bits, rounded to the nearest integer.
-/
import AdditiveDetail.Binary.Arithmetic
import AdditiveDetail.Binary.Integral
import AdditiveDetail.Sample

namespace AdditiveDetail

-- one power on naturals, whatever else is imported
attribute [local instance(high)] instPowNat

/-- Four values side by side, one for each tap of a filter. -/
structure Quad (α : Type) where
  x0 : α
  x1 : α
  x2 : α
  x3 : α
  deriving DecidableEq

/-- Apply a function to all four. -/
@[inline]
def Quad.map {α β : Type} (f : α → β) (x : Quad α) : Quad β where
  x0 := f x.x0
  x1 := f x.x1
  x2 := f x.x2
  x3 := f x.x3

/-- Four filter weights. -/
structure Taps where
  t0 : Int
  t1 : Int
  t2 : Int
  t3 : Int
  deriving DecidableEq

namespace Taps

/-- The weighted sum of four samples. -/
@[inline]
def response (t : Taps) (x : Quad Int) : Int :=
  t.t0 * x.x0 + t.t1 * x.x1 + t.t2 * x.x2 + t.t3 * x.x3

def toList (t : Taps) : List Int := [t.t0, t.t1, t.t2, t.t3]

end Taps

/-- A pair of analysis filters. -/
structure FilterBank where
  low : Taps
  high : Taps
  deriving DecidableEq

namespace FilterBank

/-- Taps per filter. -/
def tapCount : Nat := 4

/-- A coefficient with fifteen decimals. -/
def coefficient (negative : Bool) (digits : Nat) : Binary32 :=
  .ofDecimal negative digits (-15)

/-- Daubechies' low-pass coefficients with two vanishing moments. -/
def lowCoefficients : List Binary32 :=
  [coefficient false 482962913144690, coefficient false 836516303737469,
    coefficient false 224143868041857, coefficient true 129409522550921]

/-- The high-pass coefficients: the low-pass ones in reverse order, with
alternating signs. -/
def highCoefficients : List Binary32 :=
  [coefficient true 129409522550921, coefficient true 224143868041857,
    coefficient false 836516303737469, coefficient true 482962913144690]

/-- A coefficient as a weight in fixed point. -/
def weight (x : Binary32) : Int :=
  (x * .ofNat (2 ^ fractionBits)).roundHalfAway.toInt (-2 ^ (31 : Nat)) (2 ^ (31 : Nat) - 1)

/-- Four coefficients as taps; missing ones are zero. -/
def taps (coefficients : List Binary32) : Taps where
  t0 := weight (coefficients.getD 0 0)
  t1 := weight (coefficients.getD 1 0)
  t2 := weight (coefficients.getD 2 0)
  t3 := weight (coefficients.getD 3 0)

/-- The filters that scoring uses. -/
def daubechies : FilterBank where
  low := taps lowCoefficients
  high := taps highCoefficients

end FilterBank

end AdditiveDetail

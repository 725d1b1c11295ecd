/-
How much of a reference coefficient a distorted one keeps, and whether
two details point the same way. Both are decided in floating point, with
one rounding per operation, so that the last bit of the quotient and of
the products counts.

# The gain of samples

The quotient of the gain is rounded four times: the guarded reference,
its reciprocal, the product with the distorted coefficient, and the
narrowing. For integers of sixteen bits the first three leave no trace,
because such a quotient is never near the middle between two numbers of
single precision. So `sampleGain` rounds once, and only where the
quotient is neither below zero nor above one.
-/
import AdditiveDetail.Binary.Arithmetic
import AdditiveDetail.Binary.Encoding
import AdditiveDetail.Binary.Integral

namespace AdditiveDetail

/-- Keeps the quotient of the gain away from a division by zero. Beside any
other integer it is too small to count. -/
def gainGuard : Binary32 := .ofDecimal false 1 (-30)

/-- The quotient of two coefficients, between zero and one. The reciprocal
of the reference is taken in double precision, and the product with the
distorted coefficient is narrowed to single precision before it is
clamped. -/
def detailGain (reference distorted : Int) : Binary32 :=
  let guarded : Binary32 := .ofInt reference + gainGuard
  let quotient : Binary64 :=
    .ofInt distorted * (.ofNat 1 / guarded.convert)
  (quotient.convert : Binary32).clamp 0 (.ofNat 1)

/-- The gain of two samples. -/
def sampleGain (reference distorted : Int16) : Binary32 :=
  let r := reference.toInt
  let t := distorted.toInt
  if r = 0 then
    if 0 < t then .ofNat 1 else 0
  else if t = 0 then .zero (r < 0)
  else if (t < 0) ≠ (r < 0) then 0
  else if r.natAbs ≤ t.natAbs then .ofNat 1
  else .round false t.natAbs r.natAbs

/-- The square of the cosine of one degree, which is
0.99969541350954785..., in single precision. -/
def cosSquaredLimit : Binary32 :=
  .ofDecimal false 999695413509547865 (-18)

/-- Whether two vectors enclose at most the angle whose cosine has the
given square: the square of their inner product is compared with the
product of that square and their squared lengths. -/
def withinAngle (oh ov th tv : Int) (cosSquared : Binary32) : Bool :=
  let inner : Binary32 := .ofInt (oh * th + ov * tv)
  let reference : Binary32 := .ofInt (oh * oh + ov * ov)
  let distorted : Binary32 := .ofInt (th * th + tv * tv)
  (0 : Binary32).atMost inner &&
    (cosSquared * reference * distorted).atMost (inner * inner)

end AdditiveDetail

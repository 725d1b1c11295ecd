/-
Between floating-point numbers and integers: rounding to a whole number
inside the format, and leaving the format for a bounded range of
integers.
-/
import AdditiveDetail.Binary.Rounding

namespace AdditiveDetail

-- one power on naturals, whatever else is imported
attribute [local instance(high)] instPowNat

/-- The whole part of `mantissa * 2 ^ exponent`. -/
@[inline]
def wholePart (mantissa : Nat) (exponent : Int) : Nat :=
  scaleUp mantissa exponent.toNat >>> (-exponent).toNat

theorem wholePart_eq (m : Nat) (e : Int) :
    wholePart m e = m * 2 ^ e.toNat / 2 ^ (-e).toNat := by
  simp [wholePart, Nat.shiftRight_eq_div_pow]

/-- Whether `mantissa * 2 ^ exponent` is a whole number. -/
@[inline]
def isWhole (mantissa : Nat) (exponent : Int) : Bool :=
  scaleUp (wholePart mantissa exponent) (-exponent).toNat
    = scaleUp mantissa exponent.toNat

theorem isWhole_iff (m : Nat) (e : Int) :
    isWhole m e ↔ 2 ^ (-e).toNat ∣ m * 2 ^ e.toNat := by
  simp [isWhole, wholePart_eq, Nat.dvd_iff_div_mul_eq]

namespace Binary

variable {f : Format}

/-- The least whole number not below `x`. A number between minus one and
zero goes to minus zero. -/
def ceil : Binary f → Binary f
  | .nan => .nan
  | .infinity s => .infinity s
  | .finite true m e _ => roundScaled true (wholePart m e) 0
  | .finite false m e _ =>
      let n := wholePart m e
      roundScaled false (if isWhole m e then n else n + 1) 0

/-- The least integer not below `x`, brought into the range from `low` to
`high`; a NaN counts as zero. -/
def ceilInt (low high : Int) : Binary f → Int
  | .nan => 0
  | .infinity s => if s then low else high
  | .finite s m e _ =>
      let n : Int := wholePart m e
      let n := if s then -n else if isWhole m e then n else n + 1
      max low (min high n)

/-- The whole number nearest to `x`; a half goes away from zero. -/
def roundHalfAway : Binary f → Binary f
  | .nan => .nan
  | .infinity s => .infinity s
  | .finite s m e _ => roundScaled s ((wholePart (2 * m) e + 1) / 2) 0

/-- The integer part of `x`, brought into the range from `low` to `high`;
a NaN counts as zero. -/
def toInt (low high : Int) : Binary f → Int
  | .nan => 0
  | .infinity s => if s then low else high
  | .finite s m e _ =>
      let n : Int := wholePart m e
      max low (min high (if s then -n else n))

end Binary

end AdditiveDetail

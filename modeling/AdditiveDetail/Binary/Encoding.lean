/-
Floating-point numbers as bit patterns: the sign in front, the exponent
biased so that the patterns of one sign are in the order of their
numbers, the mantissa without its leading digit last.

With the exponent of the last place counted from the smallest one, the
two kinds of finite number share a formula: `(e - min) * 2 ^ (p - 1) + m`
is the pattern of a subnormal number, whose first term is zero, and of a
normal one, whose leading digit carries into the exponent field.
-/
import AdditiveDetail.Binary.Basic

namespace AdditiveDetail

-- one power on naturals, whatever else is imported
attribute [local instance(high)] instPowNat

namespace Format

/-- The weight of the exponent field's lowest bit. -/
def hidden (f : Format) : Nat := 2 ^ (f.precision - 1)

/-- The exponent field of the infinities and of NaN: all ones. -/
def special (f : Format) : Nat := (f.maxExponent - f.minExponent).toNat + 2

/-- The weight of the sign bit. -/
def signWeight (f : Format) : Nat := f.hidden * (f.special + 1)

end Format

namespace Binary

variable {f : Format}

/-- The bit pattern of a number; a NaN has the quiet pattern. -/
def toBits : Binary f → Nat
  | .nan => f.special * f.hidden + f.hidden / 2
  | .infinity s => (if s then f.signWeight else 0) + f.special * f.hidden
  | .finite s m e _ =>
      (if s then f.signWeight else 0)
        + (e - f.minExponent).toNat * f.hidden + m

/-- The number of a bit pattern. -/
def ofBits (bits : Nat) : Binary f :=
  let negative := decide (f.signWeight ≤ bits)
  let field := bits / f.hidden % (f.special + 1)
  let fraction := bits % f.hidden
  if field = f.special then
    if fraction = 0 then .infinity negative else .nan
  else if field = 0 then
    ofParts negative fraction f.minExponent
  else
    ofParts negative (f.hidden + fraction) (f.minExponent + field - 1)

end Binary

end AdditiveDetail

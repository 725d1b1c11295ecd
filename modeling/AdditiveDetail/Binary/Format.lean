/-
Formats of binary floating-point numbers: how many digits a mantissa has
and between which exponents its last place lies. Everything else about
a format (its greatest value, its subnormal range, the width of its
encoding) follows from these three numbers.

A finite number is `mantissa * 2 ^ exponent`. The exponent is always
that of the LAST place, never of the leading digit, so that a finite
number is an integer times a power of two and no fraction is ever
stored.
-/

namespace AdditiveDetail

-- one power on naturals, whatever else is imported
attribute [local instance(high)] instPowNat

/-- The shape of a binary floating-point format. -/
structure Format where
  /-- Binary digits of a mantissa. -/
  precision : Nat
  /-- Exponent of the last place of the smallest numbers. -/
  minExponent : Int
  /-- Exponent of the last place of the greatest numbers. -/
  maxExponent : Int
  two_le_precision : 2 ≤ precision := by decide
  min_le_max : minExponent ≤ maxExponent := by decide
  deriving DecidableEq

namespace Format

/-- Single precision: 24 digits. -/
def binary32 : Format where
  precision := 24
  minExponent := -149
  maxExponent := 104

/-- Double precision: 53 digits. -/
def binary64 : Format where
  precision := 53
  minExponent := -1074
  maxExponent := 971

/-- A mantissa and an exponent in the one form in which a format writes
their number: either the mantissa has all its digits, or the exponent is
the smallest there is (a subnormal number, or zero). -/
structure Canonical (f : Format) (mantissa : Nat) (exponent : Int) :
    Prop where
  min_le : f.minExponent ≤ exponent
  le_max : exponent ≤ f.maxExponent
  lt_limit : mantissa < 2 ^ f.precision
  full_or_min : 2 ^ (f.precision - 1) ≤ mantissa ∨ exponent = f.minExponent

/-- A shift to the right leaves nothing of a number below the power. -/
theorem shiftRight_eq_zero_iff (m k : Nat) : m >>> k = 0 ↔ m < 2 ^ k := by
  rw [Nat.shiftRight_eq_div_pow, Nat.div_eq_zero_iff_lt (Nat.two_pow_pos k)]

instance (f : Format) (m : Nat) (e : Int) : Decidable (f.Canonical m e) :=
  decidable_of_iff
    (f.minExponent ≤ e ∧ e ≤ f.maxExponent ∧ m >>> f.precision = 0 ∧
      (m >>> (f.precision - 1) ≠ 0 ∨ e = f.minExponent))
    (by
      rw [ne_eq, shiftRight_eq_zero_iff, shiftRight_eq_zero_iff, Nat.not_lt]
      exact ⟨fun ⟨a, b, c, d⟩ => ⟨a, b, c, d⟩,
        fun ⟨a, b, c, d⟩ => ⟨a, b, c, d⟩⟩)

/-- Zero is written with the smallest exponent. -/
theorem canonical_zero (f : Format) : f.Canonical 0 f.minExponent where
  min_le := Int.le_refl _
  le_max := f.min_le_max
  lt_limit := Nat.two_pow_pos _
  full_or_min := .inr rfl

end Format

end AdditiveDetail

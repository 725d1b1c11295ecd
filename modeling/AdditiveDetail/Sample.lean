/-
Fixed-point arithmetic on 16-bit samples. Filter weights carry fifteen
fraction bits; a weighted sum of samples is brought back to samples by
dropping these bits, toward minus infinity, and keeping the low sixteen
bits of what remains.

Sums are formed over the integers. Where a sum stays below `2 ^ 31` in
magnitude this is what a 32-bit register holds, and where it does not,
the sixteen bits that survive are the same ones.
-/

namespace AdditiveDetail

-- one power on naturals, whatever else is imported
attribute [local instance(high)] instPowNat

/-- Fraction bits of a filter weight. -/
def fractionBits : Nat := 15

/-- The value of a sum of weighted samples, in samples, rounded down. -/
@[inline]
def scaleDown (sum : Int) : Int := sum / 2 ^ fractionBits

/-- The sample with the low sixteen bits of an integer. -/
@[inline]
def narrow (x : Int) : Int16 := Int16.ofInt x

/-- A narrowed integer lies in the range of samples and differs from the
integer by a multiple of `2 ^ 16`. -/
theorem toInt_narrow (x : Int) : (narrow x).toInt = x.bmod (2 ^ (16 : Nat)) :=
  Int16.toInt_ofInt

/-- Nothing is lost when the integer is a sample already. -/
theorem toInt_narrow_of_mem {x : Int} (lo : -32768 ≤ x) (hi : x ≤ 32767) :
    (narrow x).toInt = x := by
  rw [toInt_narrow, Int.bmod_eq_emod]
  split <;> omega

end AdditiveDetail

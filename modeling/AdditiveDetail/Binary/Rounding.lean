/-
Rounding to nearest, ties to even: the one place where a number is made
inexact. Every operation of the format computes its exact result, as a
natural times a power of two or as a ratio of two naturals, and has it
settled: the result in units of its last place is rounded to a natural,
and when this carries into one digit more, the result is the next power
of two.

# How the last place is found

The leading digit of `m * 2 ^ e` has the exponent `log2 m + e`. For a
ratio `log2 num - log2 den` is that exponent, or one too great; one
comparison tells which. The last place lies `precision - 1` below the
leading digit, but never below the smallest exponent of the format.

`round_mul_two_pow` says that the two ways agree where both can be taken.
-/
import AdditiveDetail.Binary.Basic

namespace AdditiveDetail

-- one power on naturals, whatever else is imported
attribute [local instance(high)] instPowNat

-- ============================================================= powers of two

/-- The natural `n * 2 ^ k`. Powers that fit a word are made in a word. -/
@[inline]
def scaleUp (n k : Nat) : Nat :=
  if k < 63 then n * ((1 : UInt64) <<< k.toUInt64).toNat else n <<< k

@[simp]
theorem scaleUp_eq (n k : Nat) : scaleUp n k = n * 2 ^ k := by
  unfold scaleUp
  split
  · next h =>
      have hk : 2 ^ k < 2 ^ 64 := Nat.pow_lt_pow_right Nat.one_lt_two (by omega)
      have hmod : k % 2 ^ 64 % 64 = k := by omega
      rw [UInt64.toNat_shiftLeft, Nat.toUInt64_eq, UInt64.toNat_ofNat', hmod,
        UInt64.toNat_one, Nat.one_shiftLeft, Nat.mod_eq_of_lt hk]
  · exact Nat.shiftLeft_eq n k

theorem log2_mul_two_pow {m : Nat} (hm : m ≠ 0) (k : Nat) :
    (m * 2 ^ k).log2 = m.log2 + k := by
  have hk := Nat.two_pow_pos k
  rw [Nat.log2_eq_iff (Nat.mul_ne_zero hm (Nat.ne_of_gt hk))]
  constructor
  · rw [Nat.pow_add]
    exact Nat.mul_le_mul_right _ (Nat.log2_self_le hm)
  · rw [Nat.add_right_comm, Nat.pow_add]
    exact Nat.mul_lt_mul_of_pos_right Nat.lt_log2_self hk

-- ============================================================ nearest naturals

/-- The natural nearest to `q + r / den`, where `r` is below `den`; of two
equally near the even one. -/
@[inline]
def nearer (q r den : Nat) : Nat :=
  if 2 * r < den then q
  else if den < 2 * r then q + 1
  else q + q % 2

/-- The natural nearest to `num / den`; of two equally near the even one. -/
def nearestEven (num den : Nat) : Nat :=
  nearer (num / den) (num % den) den

/-- The natural nearest to `n / 2 ^ k`; of two equally near the even one. -/
@[inline]
def nearestShift (n k : Nat) : Nat :=
  let den := scaleUp 1 k
  nearer (n >>> k) (n &&& (den - 1)) den

theorem nearestShift_eq (n k : Nat) :
    nearestShift n k = nearestEven n (2 ^ k) := by
  simp [nearestShift, nearestEven, Nat.shiftRight_eq_div_pow,
    Nat.and_two_pow_sub_one_eq_mod]

theorem nearestEven_one (n : Nat) : nearestEven n 1 = n := by
  simp [nearestEven, nearer, Nat.mod_one]

/-- A common factor does not change a ratio. -/
theorem nearestEven_mul (num den : Nat) {c : Nat} (hc : 0 < c) :
    nearestEven (num * c) (den * c) = nearestEven num den := by
  have hlt (a b : Nat) : a * c < b * c ↔ a < b :=
    Nat.mul_lt_mul_right hc
  simp only [nearestEven, nearer, Nat.mul_div_mul_right _ _ hc,
    Nat.mul_mod_mul_right, ← Nat.mul_assoc, hlt]

-- ============================================================= the last place

/-- The ratio `num / den` in units of `2 ^ exponent`, as a ratio. -/
def inUnits (num den : Nat) (exponent : Int) : Nat × Nat :=
  (scaleUp num (-exponent).toNat, scaleUp den exponent.toNat)

/-- The exponent of the leading digit of `num / den`: the greatest `k`
with `2 ^ k ≤ num / den`. -/
def leadingExponent (num den : Nat) : Int :=
  let k : Int := num.log2 - den.log2
  let (n, d) := inUnits num den k
  if d ≤ n then k else k - 1

theorem leadingExponent_mul_two_pow {m : Nat} (hm : m ≠ 0) (a b : Nat) :
    leadingExponent (m * 2 ^ a) (2 ^ b) = m.log2 + (a - b : Int) := by
  have hk : ((m * 2 ^ a).log2 : Int) - (2 ^ b : Nat).log2
      = m.log2 + (a - b : Int) := by
    rw [log2_mul_two_pow hm, Nat.log2_two_pow]
    omega
  simp only [leadingExponent, inUnits, hk, scaleUp_eq]
  rw [if_pos]
  rw [Nat.mul_assoc, ← Nat.pow_add, ← Nat.pow_add]
  refine Nat.le_trans ?_ (Nat.mul_le_mul_right _ (Nat.log2_self_le hm))
  rw [← Nat.pow_add]
  exact Nat.pow_le_pow_right Nat.two_pos (by omega)

namespace Format

/-- The exponent of the last place that is kept of a number with the given
exponent of its leading digit. -/
@[inline]
def lastPlace (f : Format) (leading : Int) : Int :=
  max f.minExponent (leading - (f.precision - 1))

end Format

-- ================================================================== rounding

namespace Binary

variable {f : Format}

/-- The number `m * 2 ^ place`, where `m` may have been rounded up to the
least number with one digit more than the format has. -/
@[inline]
def carry (negative : Bool) (m : Nat) (place : Int) : Binary f :=
  if m >>> f.precision = 0 then ofParts negative m place
  else ofParts negative (scaleUp 1 (f.precision - 1)) (place + 1)

/-- The number nearest to `num / den * 2 ^ place`, where `2 ^ place` is the
last place that the format keeps of it. -/
def settle (negative : Bool) (num den : Nat) (place : Int) : Binary f :=
  carry negative (nearestEven num den) place

theorem settle_mul (negative : Bool) (num den : Nat) (place : Int) {c : Nat}
    (hc : 0 < c) :
    (settle negative (num * c) (den * c) place : Binary f)
      = settle negative num den place := by
  simp only [settle, nearestEven_mul _ _ hc]

/-- The number of the format nearest to `num / den`, with the given sign;
a tie goes to the even mantissa. -/
def round (negative : Bool) (num den : Nat) : Binary f :=
  if num = 0 then zero negative
  else
    let place := f.lastPlace (leadingExponent num den)
    let (n, d) := inUnits num den place
    settle negative n d place

/-- The number nearest to `mantissa * 2 ^ exponent`. -/
def roundScaled (negative : Bool) (mantissa : Nat) (exponent : Int) :
    Binary f :=
  if mantissa = 0 then zero negative
  else
    let place := f.lastPlace (mantissa.log2 + exponent)
    let m :=
      if place ≤ exponent then scaleUp mantissa (exponent - place).toNat
      else nearestShift mantissa (place - exponent).toNat
    carry negative m place

theorem roundScaled_eq (negative : Bool) {m : Nat} (hm : m ≠ 0)
    (exponent : Int) :
    (roundScaled negative m exponent : Binary f)
      = let place := f.lastPlace (m.log2 + exponent)
        settle negative (m * 2 ^ (exponent - place).toNat)
          (2 ^ (place - exponent).toNat) place := by
  simp only [roundScaled, hm, if_false, settle]
  generalize f.lastPlace (m.log2 + exponent) = place
  congr 1
  split
  · have hk : (place - exponent).toNat = 0 := by omega
    rw [hk, Nat.pow_zero, nearestEven_one, scaleUp_eq]
  · have hk : (exponent - place).toNat = 0 := by omega
    rw [hk, Nat.pow_zero, Nat.mul_one, nearestShift_eq]

/-- A ratio of powers of two scales a number. -/
theorem round_mul_two_pow (negative : Bool) (m a b : Nat) :
    (round negative (m * 2 ^ a) (2 ^ b) : Binary f)
      = roundScaled negative m (a - b) := by
  by_cases hm : m = 0
  · simp [round, roundScaled, hm]
  · have hnum : m * 2 ^ a ≠ 0 :=
      Nat.mul_ne_zero hm (Nat.ne_of_gt (Nat.two_pow_pos a))
    simp only [round, hnum, if_false, inUnits, scaleUp_eq,
      roundScaled_eq _ hm, leadingExponent_mul_two_pow hm]
    generalize f.lastPlace (m.log2 + (a - b : Int)) = p
    rw [Nat.mul_assoc, ← Nat.pow_add, ← Nat.pow_add]
    rcases Int.le_total p (a - b) with h | h
    · have hn : a + (-p).toNat = (a - b - p : Int).toNat + (b + p.toNat) := by
        omega
      have hd : (p - (a - b) : Int).toNat = 0 := by omega
      have := settle_mul (f := f) negative (m * 2 ^ (a - b - p : Int).toNat)
        1 p (Nat.two_pow_pos (b + p.toNat))
      rwa [Nat.one_mul, Nat.mul_assoc, ← Nat.pow_add, ← hn, ← Nat.pow_zero 2,
        ← hd] at this
    · have hd : b + p.toNat = (p - (a - b) : Int).toNat + (a + (-p).toNat) := by
        omega
      have hn : (a - b - p : Int).toNat = 0 := by omega
      rw [hn, hd, Nat.pow_add 2 (p - (a - b) : Int).toNat, Nat.pow_zero,
        Nat.mul_one]
      exact settle_mul _ _ _ _ (Nat.two_pow_pos _)

/-- The number nearest to an integer; zero has the plus sign. -/
def ofInt (i : Int) : Binary f :=
  roundScaled (i < 0) i.natAbs 0

/-- The number nearest to a natural. -/
def ofNat (n : Nat) : Binary f :=
  roundScaled false n 0

/-- The number nearest to the decimal `digits * 10 ^ exponent`. -/
def ofDecimal (negative : Bool) (digits : Nat) (exponent : Int) :
    Binary f :=
  round negative (digits * 10 ^ exponent.toNat) (10 ^ (-exponent).toNat)

/-- The same number in another format, rounded when it has to be. -/
def convert {g : Format} : Binary f → Binary g
  | .nan => .nan
  | .infinity s => .infinity s
  | .finite s m e _ => roundScaled s m e

end Binary

end AdditiveDetail

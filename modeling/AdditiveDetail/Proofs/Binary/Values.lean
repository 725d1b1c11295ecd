/-
Ratios and finite numbers as rational numbers.

Rounding starts from a ratio of naturals. It looks for the exponent of the
leading digit, which `leadingExponent_bounds` gives its meaning, and takes
the ratio in units of the last place, which keeps its value
(`inUnits_ratio`).

`value` is the rational number that a sign, a mantissa and an exponent
stand for. The operations align their operands to a common unit, and what
they align has the values of the operands (`aligned_eq_value`). Numbers of
one sign are told apart by their magnitudes (`finite_eq_of_value_eq`), so
there is one way only to write a number.
-/
import Mathlib.Algebra.Order.Field.Power
import Mathlib.Data.Rat.Cast.Order
import Mathlib.Tactic.FieldSimp
import Mathlib.Tactic.Linarith
import Mathlib.Tactic.Positivity
import Mathlib.Tactic.Ring
import AdditiveDetail.Binary.Arithmetic

namespace AdditiveDetail

-- ============================================================= powers of two

theorem two_zpow_pos (e : ℤ) : (0 : ℚ) < 2 ^ e := zpow_pos two_pos e

theorem two_zpow_add (a b : ℤ) : (2 : ℚ) ^ (a + b) = 2 ^ a * 2 ^ b :=
  zpow_add₀ two_ne_zero a b

/-- A power as a ratio of naturals. -/
theorem two_pow_toNat (e : ℤ) :
    (2 : ℚ) ^ e.toNat = 2 ^ e * 2 ^ (-e).toNat := by
  rcases le_total 0 e with h | h
  · obtain ⟨n, rfl⟩ := Int.eq_ofNat_of_zero_le h
    simp
  · obtain ⟨n, hn⟩ := Int.eq_ofNat_of_zero_le (show 0 ≤ -e by omega)
    obtain rfl : e = -(n : ℤ) := by omega
    simp

/-- Exponents are in the order of the powers. -/
theorem lt_of_two_zpow_lt {a b : ℤ} (h : (2 : ℚ) ^ a < 2 ^ b) : a < b :=
  (zpow_lt_zpow_iff_right₀ one_lt_two).1 h

theorem two_zpow_le {a b : ℤ} (h : a ≤ b) : (2 : ℚ) ^ a ≤ 2 ^ b :=
  (zpow_le_zpow_iff_right₀ one_lt_two).2 h

-- =========================================================== ratios in units

theorem inUnits_snd_pos {den : ℕ} (hden : 0 < den) (num : ℕ) (e : ℤ) :
    0 < (inUnits num den e).2 := by
  simp only [inUnits, scaleUp_eq]
  positivity

/-- A ratio in units of a power of two is the ratio over that power. -/
theorem inUnits_ratio (num : ℕ) {den : ℕ} (hden : 0 < den) (e : ℤ) :
    ((inUnits num den e).1 : ℚ) / (inUnits num den e).2 * 2 ^ e
      = num / den := by
  have hd : (den : ℚ) ≠ 0 := by positivity
  have hp : (2 : ℚ) ^ (-e).toNat ≠ 0 := by positivity
  have he := (two_zpow_pos e).ne'
  simp only [inUnits, scaleUp_eq]
  push_cast
  rw [two_pow_toNat e]
  field_simp

theorem inUnits_le_iff (num : ℕ) {den : ℕ} (hden : 0 < den) (e : ℤ) :
    (inUnits num den e).2 ≤ (inUnits num den e).1
      ↔ (2 : ℚ) ^ e ≤ num / den := by
  have hpos : (0 : ℚ) < (inUnits num den e).2 :=
    Nat.cast_pos.2 (inUnits_snd_pos hden num e)
  rw [← inUnits_ratio num hden e, le_mul_iff_one_le_left (two_zpow_pos e),
    one_le_div hpos, Nat.cast_le]

-- ========================================================= the leading digit

/-- The binary logarithms of a ratio's naturals tell its leading digit up to
one place. -/
theorem log2_ratio_bounds {num den : ℕ} (hnum : 0 < num) (hden : 0 < den) :
    (2 : ℚ) ^ ((num.log2 : ℤ) - den.log2 - 1) ≤ num / den ∧
      (num / den : ℚ) < 2 ^ ((num.log2 : ℤ) - den.log2 + 1) := by
  have hd : (0 : ℚ) < den := by positivity
  have hlow {n : ℕ} (hn : 0 < n) : (2 : ℚ) ^ (n.log2 : ℤ) ≤ n := by
    rw [zpow_natCast]; exact_mod_cast Nat.log2_self_le hn.ne'
  have hhigh (n : ℕ) : (n : ℚ) < 2 ^ ((n.log2 : ℤ) + 1) := by
    rw [← Nat.cast_succ, zpow_natCast]; exact_mod_cast Nat.lt_log2_self
  rw [le_div_iff₀ hd, div_lt_iff₀ hd]
  constructor
  · calc (2 : ℚ) ^ ((num.log2 : ℤ) - den.log2 - 1) * den
        ≤ 2 ^ ((num.log2 : ℤ) - den.log2 - 1) * 2 ^ ((den.log2 : ℤ) + 1) :=
          mul_le_mul_of_nonneg_left (hhigh den).le (two_zpow_pos _).le
      _ = 2 ^ (num.log2 : ℤ) := by rw [← two_zpow_add]; congr 1; ring
      _ ≤ num := hlow hnum
  · calc (num : ℚ) < 2 ^ ((num.log2 : ℤ) + 1) := hhigh num
      _ = 2 ^ ((num.log2 : ℤ) - den.log2 + 1) * 2 ^ (den.log2 : ℤ) := by
          rw [← two_zpow_add]; congr 1; ring
      _ ≤ 2 ^ ((num.log2 : ℤ) - den.log2 + 1) * den :=
          mul_le_mul_of_nonneg_left (hlow hden) (two_zpow_pos _).le

/-- The exponent of the leading digit. -/
theorem leadingExponent_bounds {num den : ℕ} (hnum : 0 < num)
    (hden : 0 < den) :
    (2 : ℚ) ^ leadingExponent num den ≤ num / den ∧
      (num / den : ℚ) < 2 ^ (leadingExponent num den + 1) := by
  obtain ⟨hlow, hhigh⟩ := log2_ratio_bounds hnum hden
  have hunits := inUnits_le_iff num hden (num.log2 - den.log2)
  simp only [leadingExponent]
  split
  · next h => exact ⟨hunits.1 h, hhigh⟩
  · next h =>
      rw [sub_add_cancel]
      exact ⟨hlow, not_le.1 (mt hunits.2 h)⟩

namespace Binary

variable {f : Format}

-- ================================================================== carrying

theorem carry_of_lt (s : Bool) {m : ℕ} {place : ℤ}
    (h : f.Canonical m place) :
    (carry s m place : Binary f) = .finite s m place h := by
  have hm := (Format.shiftRight_eq_zero_iff m f.precision).2 h.lt_limit
  simp [carry, hm, ofParts, h]

/-- One digit too many is the next power of two. -/
theorem carry_two_pow (s : Bool) (place : ℤ) :
    (carry s (2 ^ f.precision) place : Binary f)
      = carry s (2 ^ (f.precision - 1)) (place + 1) := by
  have h : 2 ^ f.precision >>> f.precision ≠ 0 := by
    rw [ne_eq, Format.shiftRight_eq_zero_iff]; exact lt_irrefl _
  have h' : 2 ^ (f.precision - 1) >>> f.precision = 0 := by
    rw [Format.shiftRight_eq_zero_iff]
    have := f.two_le_precision
    exact Nat.pow_lt_pow_right one_lt_two (by omega)
  simp [carry, h, h']

-- =========================================================== scaled naturals

/-- A scaled natural as a ratio. -/
theorem roundScaled_eq_round (s : Bool) (m : ℕ) (e : ℤ) :
    (roundScaled s m e : Binary f)
      = round s (m * 2 ^ e.toNat) (2 ^ (-e).toNat) := by
  rw [round_mul_two_pow]
  congr 1
  omega

theorem scaled_ratio (m : ℕ) (e : ℤ) :
    ((m * 2 ^ e.toNat : ℕ) : ℚ) / (2 ^ (-e).toNat : ℕ) = m * 2 ^ e := by
  have hp : (2 : ℚ) ^ (-e).toNat ≠ 0 := by positivity
  push_cast
  rw [two_pow_toNat e]
  field_simp

-- ============================================================ the operations

theorem mul_finite {s t : Bool} {m n : ℕ} {e d : ℤ} {h : f.Canonical m e}
    {j : f.Canonical n d} :
    (finite s m e h * finite t n d j : Binary f)
      = roundScaled (s ^^ t) (m * n) (e + d) := rfl

/-- The ratio that a division rounds. -/
theorem quotient_ratio (m : ℕ) (e : ℤ) {n : ℕ} (hn : 0 < n) (d : ℤ) :
    ((m * 2 ^ (e - d).toNat : ℕ) : ℚ) / (n * 2 ^ (d - e).toNat : ℕ)
      = m * 2 ^ e / (n * 2 ^ d) := by
  have hn' : (n : ℚ) ≠ 0 := by positivity
  have hd := (two_zpow_pos d).ne'
  have hneg : -(e - d) = d - e := by ring
  have hsplit : (2 : ℚ) ^ e = 2 ^ (e - d) * 2 ^ d := by
    rw [← two_zpow_add]; congr 1; ring
  have hp : (2 : ℚ) ^ (d - e).toNat ≠ 0 := by positivity
  push_cast
  rw [two_pow_toNat (e - d), hneg, hsplit]
  field_simp

-- ==================================================================== values

/-- The value of a sign, a mantissa and an exponent. -/
def value (s : Bool) (m : ℕ) (e : ℤ) : ℚ :=
  (if s then -1 else 1) * (m * 2 ^ e)

theorem value_false (m : ℕ) (e : ℤ) : value false m e = m * 2 ^ e := by
  simp [value]

theorem value_zero (s : Bool) (e : ℤ) : value s 0 e = 0 := by
  simp [value]

/-- A mantissa with its sign, in units that its number is a multiple of, has
the value of the number. -/
theorem aligned_eq_value (s : Bool) (m : ℕ) {e unit : ℤ}
    (h : m = 0 ∨ unit ≤ e) :
    (aligned s m e unit : ℚ) * 2 ^ unit = value s m e := by
  rcases h with rfl | h
  · simp [value, aligned]
  · obtain ⟨k, hk⟩ := Int.eq_ofNat_of_zero_le (Int.sub_nonneg_of_le h)
    have hval : (m : ℚ) * 2 ^ e = m * 2 ^ k * 2 ^ unit := by
      rw [mul_assoc, ← zpow_natCast (2 : ℚ) k, ← two_zpow_add]
      congr 2; omega
    rw [value, hval, aligned, scaleUp_eq, hk]
    cases s <;> simp

theorem commonUnit_le_left (m : ℕ) (e : ℤ) (n : ℕ) (d : ℤ) :
    m = 0 ∨ commonUnit m e n d ≤ e := by
  unfold commonUnit
  split
  · exact .inl ‹_›
  · split
    · exact .inr le_rfl
    · exact .inr (min_le_left e d)

theorem commonUnit_le_right (m : ℕ) (e : ℤ) (n : ℕ) (d : ℤ) :
    n = 0 ∨ commonUnit m e n d ≤ d := by
  unfold commonUnit
  split
  · exact .inr le_rfl
  · split
    · exact .inl ‹_›
    · exact .inr (min_le_right e d)

/-- Of two ways to write a value the one with the greater exponent would
have fewer digits than it must have. -/
theorem exponent_le_of_value_eq {m n : ℕ} {e d : ℤ} (h : f.Canonical m e)
    (j : f.Canonical n d) (hval : (m : ℚ) * 2 ^ e = n * 2 ^ d) : d ≤ e := by
  by_contra hlt
  obtain ⟨c, hc⟩ := Int.eq_ofNat_of_zero_le (show 0 ≤ d - (e + 1) by omega)
  have hd : (2 : ℚ) ^ d = 2 ^ c * 2 * 2 ^ e := by
    rw [← zpow_natCast, ← zpow_add_one₀ two_ne_zero, ← two_zpow_add]
    congr 1; omega
  rw [hd, ← mul_assoc] at hval
  have hmn := mul_right_cancel₀ (two_zpow_pos e).ne' hval
  have hmn' : m = n * (2 ^ c * 2) := by exact_mod_cast hmn
  have hmin : f.minExponent < d := by have := h.min_le; omega
  have hfull := j.full_or_min.resolve_right hmin.ne'
  have hone : 1 ≤ 2 ^ c := Nat.one_le_two_pow
  have hpow : 2 ^ f.precision = 2 ^ (f.precision - 1) * 2 := by
    rw [← pow_succ]; congr 1; have := f.two_le_precision; omega
  have := h.lt_limit
  nlinarith

/-- Numbers of one sign are equal when their magnitudes are. -/
theorem finite_eq_of_value_eq {s : Bool} {m n : ℕ} {e d : ℤ}
    {h : f.Canonical m e} {j : f.Canonical n d}
    (hval : (m : ℚ) * 2 ^ e = n * 2 ^ d) :
    (finite s m e h : Binary f) = .finite s n d j := by
  obtain rfl : e = d :=
    le_antisymm (exponent_le_of_value_eq j h hval.symm)
      (exponent_le_of_value_eq h j hval)
  have hmn := mul_right_cancel₀ (two_zpow_pos e).ne' hval
  obtain rfl : m = n := by exact_mod_cast hmn
  rfl

end Binary

end AdditiveDetail

/-
Counting roundings.

A rounding takes a number that is not too small to something between
`1 - u` and `1 + u` times the number, where `u` is one part in
`2 ^ precision`. So a number that left an exact value behind by `n`
roundings lies between `(1 - u) ^ n` and `(1 + u) ^ n` times that value,
and this is all that is kept of it: `Rounded`. A further rounding adds one
to the count (`Rounded.nearest`), and the counts of two factors add up
(`Rounded.mul`).

# Two sides of a comparison

Rounded numbers that are compared may stand in another order than their
exact values, but only where these are close: how close is told by the two
counts (`Rounded.le_of_apart`, `Rounded.apart_of_le`).

# Overflow

An operation whose result is finite has rounded its exact result, however
great that is. Where it is known that nothing overflows, no limit has to be
looked at (`Denotes.mul_of_isFinite`).
-/
import AdditiveDetail.Proofs.Binary.Denotation
import AdditiveDetail.Proofs.Binary.Grid

namespace AdditiveDetail

namespace Format

variable {f : Format}

-- ================================================================ one rounding

/-- One part in `2 ^ precision`. -/
def roundoff (f : Format) : ℚ := 2 ^ (-f.precision : ℤ)

theorem roundoff_pos (f : Format) : 0 < f.roundoff := two_zpow_pos _

theorem two_pow_mul_roundoff (f : Format) :
    2 ^ f.precision * f.roundoff = 1 := by
  unfold roundoff
  rw [← zpow_natCast, ← two_zpow_add, add_neg_cancel, zpow_zero]

theorem roundoff_lt_one (f : Format) : f.roundoff < 1 := by
  have hprecision := f.one_le_precision
  have hpow : (1 : ℚ) < 2 ^ f.precision :=
    one_lt_pow₀ one_lt_two (by omega)
  have hpos := f.roundoff_pos
  have hone := f.two_pow_mul_roundoff
  nlinarith

theorem one_sub_roundoff_pos (f : Format) : 0 < 1 - f.roundoff :=
  sub_pos.2 f.roundoff_lt_one

theorem one_add_roundoff_pos (f : Format) : 0 < 1 + f.roundoff :=
  add_pos one_pos f.roundoff_pos

/-- Few roundings take away less than one half. -/
theorem half_le_one_sub_roundoff_pow {n : ℕ} (hn : 2 * n ≤ 2 ^ f.precision) :
    1 / 2 ≤ (1 - f.roundoff) ^ n := by
  have hpos := f.roundoff_pos
  have hbernoulli := one_add_mul_le_pow (a := -f.roundoff)
    (by linarith [f.roundoff_lt_one]) n
  rw [← sub_eq_add_neg] at hbernoulli
  have hcount : (2 * n : ℚ) ≤ 2 ^ f.precision := by exact_mod_cast hn
  have hshare : 2 * n * f.roundoff ≤ 1 := by
    rw [← f.two_pow_mul_roundoff]
    exact mul_le_mul_of_nonneg_right hcount hpos.le
  linarith

-- ============================================================= many roundings

/-- What `n` roundings may have made of a value that is not below zero. -/
structure Rounded (f : Format) (n : ℕ) (x q : ℚ) : Prop where
  lower : q * (1 - f.roundoff) ^ n ≤ x
  upper : x ≤ q * (1 + f.roundoff) ^ n

namespace Rounded

variable {m n : ℕ} {x y q r : ℚ}

theorem refl (q : ℚ) : f.Rounded 0 q q where
  lower := by rw [pow_zero, mul_one]
  upper := by rw [pow_zero, mul_one]

theorem nonneg (h : f.Rounded n x q) (hq : 0 ≤ q) : 0 ≤ x :=
  (mul_nonneg hq (pow_nonneg f.one_sub_roundoff_pos.le n)).trans h.lower

/-- What was zero is zero. -/
theorem eq_zero (h : f.Rounded n x 0) : x = 0 :=
  le_antisymm (by simpa using h.upper) (h.nonneg le_rfl)

/-- The counts of two factors add up. -/
theorem mul (hx : f.Rounded m x q) (hy : f.Rounded n y r) (hq : 0 ≤ q)
    (hr : 0 ≤ r) : f.Rounded (m + n) (x * y) (q * r) where
  lower := by
    have hu := pow_nonneg f.one_sub_roundoff_pos.le
    calc q * r * (1 - f.roundoff) ^ (m + n)
        = q * (1 - f.roundoff) ^ m * (r * (1 - f.roundoff) ^ n) := by
          rw [pow_add]; ring
      _ ≤ x * y := mul_le_mul hx.lower hy.lower (mul_nonneg hr (hu n))
          (hx.nonneg hq)
  upper := by
    have hu := pow_nonneg f.one_add_roundoff_pos.le
    calc x * y
        ≤ q * (1 + f.roundoff) ^ m * (r * (1 + f.roundoff) ^ n) :=
          mul_le_mul hx.upper hy.upper (hy.nonneg hr) (mul_nonneg hq (hu m))
      _ = q * r * (1 + f.roundoff) ^ (m + n) := by rw [pow_add]; ring

/-- One rounding more. What is rounded must not have become too small, so
the exact value keeps a distance of one digit. -/
theorem nearest (h : f.Rounded n x q) (hq : 0 ≤ q)
    (hnormal : q ≠ 0 → 2 ^ (f.minExponent + f.precision) ≤ q)
    (hn : 2 * n ≤ 2 ^ f.precision) : f.Rounded (n + 1) (f.nearest x) q := by
  have hx := h.nonneg hq
  have herror : |f.nearest x - x| ≤ x * f.roundoff := by
    -- `n` roundings cost less than one half, so what is rounded is not
    -- subnormal yet
    have hrelative := Format.nearest_relative_error (f := f) (x := x) <| by
      intro hx0
      have hq0 : q ≠ 0 := by
        rintro rfl
        exact hx0 h.eq_zero
      rw [abs_of_nonneg hx, zpow_sub_one₀ two_ne_zero]
      have hhalf := mul_le_mul_of_nonneg_left
        (half_le_one_sub_roundoff_pow hn) hq
      linarith [h.lower, hnormal hq0]
    rwa [abs_of_nonneg hx] at hrelative
  obtain ⟨hlow, hhigh⟩ := abs_le.1 herror
  constructor
  · calc q * (1 - f.roundoff) ^ (n + 1)
        = q * (1 - f.roundoff) ^ n * (1 - f.roundoff) := by
          rw [pow_succ, mul_assoc]
      _ ≤ x * (1 - f.roundoff) :=
          mul_le_mul_of_nonneg_right h.lower f.one_sub_roundoff_pos.le
      _ ≤ f.nearest x := by linarith
  · calc f.nearest x ≤ x * (1 + f.roundoff) := by linarith
      _ ≤ q * (1 + f.roundoff) ^ n * (1 + f.roundoff) :=
          mul_le_mul_of_nonneg_right h.upper f.one_add_roundoff_pos.le
      _ = q * (1 + f.roundoff) ^ (n + 1) := by rw [pow_succ, mul_assoc]

-- =========================================================== two rounded sides

/-- Values that are far enough apart keep their order. -/
theorem le_of_apart (hx : f.Rounded m x q) (hy : f.Rounded n y r)
    (hr : 0 ≤ r) (δ : ℚ)
    (hδ : (1 + f.roundoff) ^ n ≤ (1 + δ) * (1 - f.roundoff) ^ m)
    (h : r * (1 + δ) ≤ q) : y ≤ x :=
  calc y ≤ r * (1 + f.roundoff) ^ n := hy.upper
    _ ≤ r * (1 + δ) * (1 - f.roundoff) ^ m := by
        rw [mul_assoc]
        exact mul_le_mul_of_nonneg_left hδ hr
    _ ≤ q * (1 - f.roundoff) ^ m :=
        mul_le_mul_of_nonneg_right h (pow_nonneg f.one_sub_roundoff_pos.le m)
    _ ≤ x := hx.lower

/-- What is in order came from values that are in order, up to the same
distance. -/
theorem apart_of_le (hx : f.Rounded m x q) (hy : f.Rounded n y r)
    (hr : 0 ≤ r) (δ : ℚ)
    (hδ : (1 - δ) * (1 + f.roundoff) ^ m ≤ (1 - f.roundoff) ^ n)
    (h : y ≤ x) : r * (1 - δ) ≤ q := by
  have hscaled : r * (1 - δ) * (1 + f.roundoff) ^ m
      ≤ q * (1 + f.roundoff) ^ m :=
    calc r * (1 - δ) * (1 + f.roundoff) ^ m
        ≤ r * (1 - f.roundoff) ^ n := by
          rw [mul_assoc]
          exact mul_le_mul_of_nonneg_left hδ hr
      _ ≤ y := hy.lower
      _ ≤ x := h
      _ ≤ q * (1 + f.roundoff) ^ m := hx.upper
  exact le_of_mul_le_mul_right hscaled (pow_pos f.one_add_roundoff_pos m)

end Rounded

end Format

-- ============================================================== finite results

namespace Binary

variable {f : Format}

/-- A finite product is the exact product, rounded. -/
theorem Denotes.mul_of_isFinite {x y : Binary f} {q r : ℚ} (hx : x.Denotes q)
    (hy : y.Denotes r) (h : (x * y).isFinite) :
    (x * y).Denotes (f.nearest (q * r)) := by
  rcases hx.mul_or hy with hdenotes | ⟨-, hinfinite⟩
  · exact hdenotes
  · rw [hinfinite] at h
    cases h

/-- An integer that is finite in a format is rounded there. -/
theorem ofInt_denotes_of_isFinite {i : ℤ} (h : (ofInt i : Binary f).isFinite) :
    (ofInt i : Binary f).Denotes (f.nearest i) := by
  have hval : value (decide (i < 0)) i.natAbs 0 = i := by
    rw [value_natAbs, zpow_zero, mul_one]
  have hround := roundScaled_denotes_or (f := f) (decide (i < 0)) i.natAbs 0
  rw [hval] at hround
  rcases hround with hdenotes | ⟨-, hinfinite⟩
  · exact hdenotes
  · rw [ofInt, hinfinite] at h
    cases h

end Binary

end AdditiveDetail

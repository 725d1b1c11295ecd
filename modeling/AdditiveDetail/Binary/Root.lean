/-
The cube root, rounded once.

# The integer root

`cubeRootBelow` goes down by Newton's steps from a number above the root.
The mean that a step takes is never below the root, and a step that does
not go down can only start at the root, so the last number reached IS the
root. The steps are few from a start that shares half of its digits with
the root: `cubeRoot` finds it as the root of the upper half of the
radicand. `le_cubeRoot_iff` says that the start leaves no trace.

# Why one extra digit decides

The radicand is scaled until its exponent is a multiple of three and the
integer root of it has more digits than the format keeps, by two. Where
the root is not exact, a half is added to it: twice the integer root plus
one, against twice the integer root. No number of the format and no
midpoint between two of them lies strictly between the integer root and
the next integer, so the half stands for the whole remainder and the
rounding sees the same side as the true root.
-/
import AdditiveDetail.Binary.Rounding

namespace AdditiveDetail

-- one power on naturals, whatever else is imported
attribute [local instance(high)] instPowNat

-- ========================================================= roots of naturals

/-- Newton's steps toward the cube root of `n`, from above it. The first
step that does not go down has arrived. -/
def cubeRootBelow (n x : Nat) : Nat :=
  let y := (2 * x + n / (x * x)) / 3
  if y < x then cubeRootBelow n y else x
termination_by x

/-- The greatest number whose cube is at most `n`, from a power of two. -/
def cubeRootFromPower (n : Nat) : Nat :=
  cubeRootBelow n (scaleUp 1 (n.log2 / 3 + 1))

/-- The greatest number whose cube is at most `n`. -/
def cubeRoot (n : Nat) : Nat :=
  let k := n.log2 / 6
  cubeRootBelow n (scaleUp (cubeRootFromPower (n >>> (3 * k)) + 1) k)

/-- A step from above a root does not go below it. -/
theorem le_newton_step {n r x : Nat} (hr : r ^ (3 : Nat) ≤ n) (hrx : r ≤ x) :
    r ≤ (2 * x + n / (x * x)) / 3 := by
  have hq : 3 * r ≤ 2 * x + n / (x * x) := by
    rcases Nat.le_total (3 * r) (2 * x) with h | h
    · exact Nat.le_trans h (Nat.le_add_right ..)
    · obtain ⟨d, rfl⟩ := Nat.exists_eq_add_of_le hrx
      obtain ⟨k, rfl⟩ := Nat.exists_eq_add_of_le (show 2 * d ≤ r by omega)
      rcases Nat.eq_zero_or_pos (2 * d + k + d) with h0 | hpos
      · exact Nat.le_trans (by omega) (Nat.zero_le _)
      · have hk : k ≤ n / ((2 * d + k + d) * (2 * d + k + d)) := by
          rw [Nat.le_div_iff_mul_le (Nat.mul_pos hpos hpos)]
          have hcube : (2 * d + k) ^ (3 : Nat)
              = k * ((2 * d + k + d) * (2 * d + k + d))
                + (8 * d ^ (3 : Nat) + 3 * (d ^ (2 : Nat) * k)) := by
            grind
          omega
        omega
  omega

theorem cubeRootBelow_pow_le (n x : Nat) : cubeRootBelow n x ^ (3 : Nat) ≤ n := by
  fun_induction cubeRootBelow n x with
  | case1 x y h ih => exact ih
  | case2 x y h =>
      rcases Nat.eq_zero_or_pos x with rfl | hx
      · simp
      · have hq : x ≤ n / (x * x) := by omega
        rw [Nat.le_div_iff_mul_le (Nat.mul_pos hx hx)] at hq
        calc x ^ (3 : Nat) = x * (x * x) := by
              rw [Nat.pow_succ, Nat.pow_two, Nat.mul_assoc]
          _ ≤ n := hq

theorem le_cubeRootBelow {n r x : Nat} (hr : r ^ (3 : Nat) ≤ n) (hrx : r ≤ x) :
    r ≤ cubeRootBelow n x := by
  fun_induction cubeRootBelow n x with
  | case1 x y h ih => exact ih (le_newton_step hr hrx)
  | case2 x y h => exact hrx

/-- Newton's steps arrive at the root from any start above it. -/
theorem le_cubeRootBelow_iff {n r x : Nat} (hx : ∀ r, r ^ (3 : Nat) ≤ n → r ≤ x) :
    r ≤ cubeRootBelow n x ↔ r ^ (3 : Nat) ≤ n := by
  constructor
  · intro h
    exact Nat.le_trans (Nat.pow_le_pow_left h 3) (cubeRootBelow_pow_le ..)
  · intro h
    exact le_cubeRootBelow h (hx r h)

theorem le_cubeRootFromPower_iff {n r : Nat} :
    r ≤ cubeRootFromPower n ↔ r ^ (3 : Nat) ≤ n := by
  refine le_cubeRootBelow_iff fun r h => Nat.le_of_not_lt fun hlt => ?_
  rw [scaleUp_eq, Nat.one_mul] at hlt
  have hlog : n < 2 ^ (n.log2 + 1) := Nat.lt_log2_self
  have hcube : (2 ^ (n.log2 / 3 + 1)) ^ (3 : Nat) ≤ r ^ (3 : Nat) :=
    Nat.pow_le_pow_left (Nat.le_of_lt hlt) 3
  have hpow : 2 ^ (n.log2 + 1) ≤ (2 ^ (n.log2 / 3 + 1)) ^ (3 : Nat) := by
    rw [← Nat.pow_mul]
    exact Nat.pow_le_pow_right Nat.two_pos (by omega)
  omega

theorem le_cubeRoot_iff {n r : Nat} : r ≤ cubeRoot n ↔ r ^ (3 : Nat) ≤ n := by
  refine le_cubeRootBelow_iff fun r h => ?_
  generalize n.log2 / 6 = k
  have hk := Nat.two_pow_pos k
  have hupper : r / 2 ^ k ≤ cubeRootFromPower (n >>> (3 * k)) := by
    rw [le_cubeRootFromPower_iff, Nat.shiftRight_eq_div_pow,
      Nat.le_div_iff_mul_le (Nat.two_pow_pos _), Nat.mul_comm 3, Nat.pow_mul,
      ← Nat.mul_pow]
    exact Nat.le_trans (Nat.pow_le_pow_left (Nat.div_mul_le_self ..) 3) h
  rw [scaleUp_eq]
  exact Nat.le_of_lt ((Nat.div_lt_iff_lt_mul hk).1 (Nat.lt_succ_of_le hupper))

-- ========================================================== roots of a format

namespace Binary

variable {f : Format}

/-- The number nearest to the cube root.

Unlike the square root, the cube root of a library need not be the nearest
number: how it is rounded is left open, and may differ from one platform to
another. That it is rounded correctly is an ASSUMPTION of this definition, and
so of all that is said of scores. -/
def cbrt : Binary f → Binary f
  | .nan => .nan
  | .infinity s => .infinity s
  | .finite s m e h =>
      if m = 0 then .finite s m e h
      else
        let missing := 3 * (f.precision + 1) - m.log2
        let shift := missing + ((e - missing) % 3).toNat
        let n := scaleUp m shift
        let root := cubeRoot n
        let rest := if root ^ (3 : Nat) = n then 0 else 1
        roundScaled s (2 * root + rest) ((e - shift) / 3 - 1)

end Binary

end AdditiveDetail

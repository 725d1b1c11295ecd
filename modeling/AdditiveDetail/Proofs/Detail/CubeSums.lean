/-
Sums of cubes in words of 64 bits.

# The checked sum

`Pooling.cubeSum` is formed over the naturals. A machine forms it in a
word of 64 bits with a sign, cube by cube; `cubeSumChecked` is the sum on
a machine that stops as soon as its word does not hold a square, a cube or
a sum. Nothing that is added is below zero, so no sum on the way is
greater than the last one: where a word holds the result, the machine does
not stop in front of it (`cubeSumChecked_eq`).

# Why it is held

What is pooled is visible detail, or what masking leaves of it, and both
are at most 1497 in magnitude. The cubes of a band of `2 ^ 31` samples then
sum to less than `2 ^ 63`; samples of full range would not.
-/
import AdditiveDetail.Proofs.Detail.Contribution
import AdditiveDetail.Proofs.Detail.Reach

namespace AdditiveDetail

-- ============================================================ the checked sum

namespace Pooling

/-- The greatest number that a word of 64 bits with a sign holds. -/
def maxSum : ℕ := 2 ^ 63 - 1

/-- Add the cube of a magnitude to a sum, where a word holds its square, the
cube and the new sum. -/
def addCubed (sum : ℕ) (x : Int16) : Option ℕ :=
  let n := x.toInt.natAbs
  if n * n ≤ maxSum ∧ cubed x ≤ maxSum ∧ sum + cubed x ≤ maxSum then
    some (sum + cubed x)
  else none

variable {d : Dims}

/-- `cubeSum` with checks. -/
def cubeSumChecked (band : Raster Int16 d) (r : Region) : Option ℕ :=
  Fin.foldlM d.height (fun sum i =>
    Fin.foldlM d.width (fun sum j =>
      if r.Contains i j then addCubed sum (band i j) else some sum) sum) 0

/-- Steps that add their terms as long as a word holds the sum add all of
them when it holds the last one. -/
theorem foldlM_add_eq_sum {n : ℕ} {step : ℕ → Fin n → Option ℕ}
    {term : Fin n → ℕ} {start : ℕ}
    (adds : ∀ j sum, sum + term j ≤ maxSum → step sum j = some (sum + term j))
    (h : start + ∑ j, term j ≤ maxSum) :
    Fin.foldlM n step start = some (start + ∑ j, term j) := by
  induction n with
  | zero => simp
  | succ n ih =>
      rw [Fin.sum_univ_castSucc] at h ⊢
      have hlast := adds (Fin.last n)
        (start + ∑ j : Fin n, term j.castSucc) (by omega)
      have hrun : Fin.foldlM n (fun sum j => step sum j.castSucc) start
          = some (start + ∑ j : Fin n, term j.castSucc) :=
        ih (fun j => adds j.castSucc) (by omega)
      rw [Fin.foldlM_succ_last, ← Nat.add_assoc]
      simp only [hrun]
      exact hlast

theorem addCubed_eq {sum : ℕ} {x : Int16} (h : sum + cubed x ≤ maxSum) :
    addCubed sum x = some (sum + cubed x) := by
  have hsquare : x.toInt.natAbs * x.toInt.natAbs ≤ maxSum := by
    have hx : x.toInt.natAbs ≤ 2 ^ 15 := by
      have := x.toInt_lt
      have := x.le_toInt
      omega
    exact (Nat.mul_le_mul hx hx).trans (by decide)
  exact if_pos ⟨hsquare, by omega, h⟩

/-- Where a word holds the sum, the checked sum is the sum. -/
theorem cubeSumChecked_eq {band : Raster Int16 d} {r : Region}
    (h : cubeSum band r ≤ maxSum) :
    cubeSumChecked band r = some (cubeSum band r) := by
  rw [cubeSum_eq] at h ⊢
  unfold cubeSumChecked
  rw [← Nat.zero_add (∑ i : Fin d.height, _)] at h ⊢
  refine foldlM_add_eq_sum (fun i sum hrow => ?_) h
  refine foldlM_add_eq_sum (fun j sum hcell => ?_) hrow
  by_cases hij : r.Contains i j
  · rw [if_pos hij] at hcell ⊢
    rw [if_pos hij]
    exact addCubed_eq hcell
  · rw [if_neg hij, if_neg hij, Nat.add_zero]

/-- A word holds the cubes of what is visible of a band. -/
theorem cubeSum_le_maxSum {band : Raster Int16 d} (harea : d.area ≤ 2 ^ 31)
    (h : ∀ i j, (band i j).toInt.natAbs ≤ visibleLimit) (r : Region) :
    cubeSum band r ≤ maxSum := by
  have hcubed (i : Fin d.height) (j : Fin d.width) :
      cubed (band i j) ≤ visibleLimit * visibleLimit * visibleLimit :=
    Nat.mul_le_mul (Nat.mul_le_mul (h i j) (h i j)) (h i j)
  calc cubeSum band r
      ≤ d.area * (visibleLimit * visibleLimit * visibleLimit) :=
        cubeSum_le hcubed r
    _ ≤ 2 ^ 31 * (visibleLimit * visibleLimit * visibleLimit) :=
        Nat.mul_le_mul_right _ harea
    _ ≤ maxSum := by decide

end Pooling

-- ======================================================== the contribution

/-- `contribution` with checks. -/
def BandSet.contributionChecked {c : Dims} (b : BandSet c)
    (factor : Binary64) : Option Binary64 := do
  let r ← (Pooling.pooledRegion b.dims factor).toOption
  let area := Pooling.areaTerm r.area
  let terms ← Orientation.all.mapM fun o => do
    let sum ← Pooling.cubeSumChecked (b.detail o) r
    return Pooling.sumTerm sum + area
  return Binary.sum terms

variable {c d : Dims}

/-- Visible detail contributes without an overflow. -/
theorem BandSet.contributionChecked_eq {b : BandSet c} {x : Detail d}
    (hx : b.Shows x) (harea : d.area ≤ 2 ^ 31)
    (h : ∀ o i j, (x o i j).toInt.natAbs ≤ visibleLimit) :
    b.contributionChecked Pooling.borderFactor
      = some (x.pooled (Pooling.innerRegion d)) := by
  obtain rfl := hx.dims_eq
  have hsum (o : Orientation) :
      Pooling.cubeSumChecked (x o) (Pooling.innerRegion b.dims)
        = some (Pooling.cubeSum (x o) (Pooling.innerRegion b.dims)) :=
    Pooling.cubeSumChecked_eq (Pooling.cubeSum_le_maxSum harea (h o) _)
  unfold contributionChecked
  rw [Pooling.pooledRegion_eq, hx.detail_eq]
  simp only [Except.toOption, Orientation.all, List.mapM_cons, List.mapM_nil,
    hsum, Option.bind_eq_bind, Option.bind_some, Option.pure_def]
  rfl

namespace Detail

/-- Masking takes away from what is visible, and never adds to it. -/
theorem natAbs_maskedBy_le {x : Detail d} {t : Raster Int16 d}
    {o : Orientation} {i : Fin d.height} {j : Fin d.width}
    (hx : (x o i j).toInt.natAbs ≤ visibleLimit) (ht : 0 ≤ (t i j).toInt) :
    (x.maskedBy t o i j).toInt.natAbs ≤ visibleLimit := by
  unfold maskedBy
  rw [Masking.toInt_mask hx ht]
  omega

end Detail

end AdditiveDetail

/-
The cubic norm in exact arithmetic.

# What is exact

Pooling takes the cube root of a sum in double precision and rounds it up.
A sum just above a cube is where this could go wrong: a root that rounding
takes down to the whole number below would lose a unit. The root of
`m ^ 3 + 1` exceeds `m` by about one part in `3 * m ^ 2`, and below
`2 ^ 51` that is more than `2 ^ -36`, a place that double precision still
keeps beside `m` (`sumTerm_isLeast`). So pooling returns the exact ceilings
of the exact roots, and their sum is a whole number of few digits.

# Signs of zero

A band without samples, or with samples of zero alone, has terms that are
zero, and there the value of a term does not tell its sign. No sign is
negative on the way (`Binary.Unsigned`), so what is returned is the number
written from `n + m`, bit for bit.
-/
import AdditiveDetail.Proofs.Binary.Signs
import AdditiveDetail.Proofs.Detail.Comparison
import AdditiveDetail.Proofs.Detail.CubeSums

namespace AdditiveDetail

open Binary

-- ==================================================== numbers without a sign

namespace Binary

variable {f : Format}

/-- Without a minus sign there is one way only to write a number, zero
included. -/
theorem Denotes.eq_of_unsigned {x y : Binary f} {q : ℚ} (hx : x.Denotes q)
    (hy : y.Denotes q) (hxsign : x.Unsigned) (hysign : y.Unsigned) :
    x = y := by
  by_cases hq : q = 0
  · have hzero {z : Binary f} (hz : z.Denotes q) (hsign : z.Unsigned) :
        z = zero false := by
      obtain ⟨s, m, e, h, rfl, hval⟩ := hz.exists_finite
      obtain rfl : s = false := hsign
      obtain rfl : m = 0 := value_eq_zero_iff.1 (hval ▸ hq)
      obtain rfl : e = f.minExponent :=
        h.full_or_min.resolve_left (Nat.not_le.2 (Nat.two_pow_pos _))
      rfl
    rw [hzero hx hxsign, hzero hy hysign]
  · exact hx.eq_of_ne_zero hy hq

end Binary

namespace Pooling

variable {d : Dims}

-- ============================================================= the exact norm

/-- The sum of the cubes of the magnitudes in a region. -/
def magnitudeCubes (band : Raster Int16 d) (r : Region) : ℕ :=
  ∑ i : Fin d.height, ∑ j : Fin d.width,
    if r.Contains i j then (band i j).toInt.natAbs ^ 3 else 0

/-- The two terms of the cubic norm in exact arithmetic: the ceilings of two
cube roots. -/
structure ExactNorm (band : Raster Int16 d) (r : Region) (n m : ℕ) :
    Prop where
  magnitudes : IsLeast {k | magnitudeCubes band r ≤ k ^ 3} n
  area : IsLeast {k | r.area ≤ 32 * k ^ 3} m

/-- Pooling sums these cubes. -/
theorem cubeSum_eq_magnitudeCubes (band : Raster Int16 d) (r : Region) :
    cubeSum band r = magnitudeCubes band r := by
  have hcubed (x : Int16) : cubed x = x.toInt.natAbs ^ 3 := by
    rw [pow_succ, pow_two]
    rfl
  simp only [cubeSum_eq, magnitudeCubes, hcubed]

/-- Greater magnitudes inside a region have no smaller sum. -/
theorem magnitudeCubes_mono {band other : Raster Int16 d} {r : Region}
    (h : ∀ (i : Fin d.height) (j : Fin d.width), r.Contains i j →
      (other i j).toInt.natAbs ≤ (band i j).toInt.natAbs) :
    magnitudeCubes other r ≤ magnitudeCubes band r := by
  refine Finset.sum_le_sum fun i _ => Finset.sum_le_sum fun j _ => ?_
  split
  · next hij => exact Nat.pow_le_pow_left (h i j hij) 3
  · exact le_rfl

/-- The exact norm keeps the order of sums. -/
theorem ExactNorm.le {band other : Raster Int16 d} {r : Region} {n m k l : ℕ}
    (h : ExactNorm band r n m) (hother : ExactNorm other r k l)
    (hle : magnitudeCubes other r ≤ magnitudeCubes band r) : k ≤ n :=
  hother.magnitudes.2 (hle.trans h.magnitudes.1)

-- ================================================================== the terms

theorem isLeast_root {m sum : ℕ} (hlow : m ^ 3 < sum)
    (hhigh : sum ≤ (m + 1) ^ 3) : IsLeast {k | sum ≤ k ^ 3} (m + 1) := by
  refine ⟨hhigh, fun k hk => ?_⟩
  by_contra hlt
  have := Nat.pow_le_pow_left (show k ≤ m by omega) 3
  have : sum ≤ k ^ 3 := hk
  omega

theorem IsAreaRoot.isLeast {n area : ℕ} (h : IsAreaRoot n area) :
    IsLeast {k | area ≤ 32 * k ^ 3} n :=
  ⟨(h n).1 le_rfl, fun k hk => (h k).2 hk⟩

/-- What exceeds a cube of a root below `2 ^ 17` by one has a root that is
greater by `2 ^ -36` at least. -/
theorem cube_add_gap_le {m sum : ℕ} (hm : m < 2 ^ 17) (h : m ^ 3 < sum) :
    ((m : ℚ) + 2 ^ (-36 : ℤ)) ^ 3 ≤ sum := by
  have hm' : (m : ℚ) ≤ 2 ^ 17 := by exact_mod_cast hm.le
  have hm0 : (0 : ℚ) ≤ m := Nat.cast_nonneg m
  have hstep : (m : ℚ) ^ 3 + 1 ≤ sum := by exact_mod_cast h
  have hsquare : (m : ℚ) ^ 2 ≤ (2 ^ 17) ^ 2 := pow_le_pow_left₀ hm0 hm' 2
  calc ((m : ℚ) + 2 ^ (-36 : ℤ)) ^ 3
      = (m : ℚ) ^ 3 + (3 * 2 ^ (-36 : ℤ) * m ^ 2
          + 3 * (2 ^ (-36 : ℤ)) ^ 2 * m + (2 ^ (-36 : ℤ)) ^ 3) := by ring
    _ ≤ (m : ℚ) ^ 3 + 1 := by
        norm_num at hsquare ⊢
        linarith
    _ ≤ sum := hstep

/-- The term of a sum is the exact ceiling of its root. -/
theorem sumTerm_isLeast {sum : ℕ} (h : sum ≤ 2 ^ 51) :
    ∃ n ≤ 2 ^ 17, IsLeast {k | sum ≤ k ^ 3} n ∧ (sumTerm sum).Denotes n := by
  rcases Nat.eq_zero_or_pos sum with rfl | hpos
  · exact ⟨0, Nat.zero_le _, ⟨Nat.zero_le _, fun k _ => Nat.zero_le k⟩,
      sumTerm_zero⟩
  obtain ⟨m, hm, hlow, hhigh⟩ := exists_between_cubes hpos
    (show sum ≤ 1 * (2 ^ 17) ^ 3 from h.trans (by decide))
  rw [Nat.one_mul] at hlow hhigh
  have hsum := ofNat_denotes_self (f := .binary64)
    (h.trans (show 2 ^ 51 ≤ 2 ^ 53 by decide)) (by decide) (by decide)
  refine ⟨m + 1, hm, isLeast_root hlow hhigh,
    hsum.ceil_cbrt (k := 36) (cube_add_gap_le hm hlow) ?_ ?_⟩
  · exact_mod_cast hhigh
  · exact (Nat.mul_le_mul_right _ hm).trans (by decide)

/-- The term of an area is the exact ceiling of its root, for no area
too. -/
theorem areaTerm_isLeast {area : ℕ} (h : area ≤ 2 ^ 31) :
    ∃ m ≤ 2 ^ 9, IsLeast {k | area ≤ 32 * k ^ 3} m ∧
      (areaTerm area).Denotes m := by
  rcases Nat.eq_zero_or_pos area with rfl | hpos
  · refine ⟨0, Nat.zero_le _, ⟨Nat.zero_le _, fun k _ => Nat.zero_le k⟩, ?_⟩
    have hzero : areaTerm 0 = zero false := by decide +kernel
    rw [hzero, Nat.cast_zero]
    exact zero_denotes false
  · obtain ⟨m, hm, hle, -⟩ := areaTerm_denotes h
    exact ⟨m, hle, (areaTerm_areaRoot hpos h hm).isLeast, hm⟩

-- =================================================================== the norm

/-- Pooling returns the exact norm. -/
theorem exists_exactNorm {band : Raster Int16 d}
    (hsum : magnitudeCubes band (innerRegion d) ≤ 2 ^ 51)
    (harea : (innerRegion d).area ≤ 2 ^ 31) :
    ∃ n m, ExactNorm band (innerRegion d) n m ∧
      (ofNat (n + m) : Binary64).Denotes (n + m : ℕ) ∧
      cubicNorm band borderFactor = .ok (.ofNat (n + m)) := by
  obtain ⟨n, hn, hnleast, hndenotes⟩ := sumTerm_isLeast hsum
  obtain ⟨m, hm, hmleast, hmdenotes⟩ := areaTerm_isLeast harea
  have hdigits : n + m ≤ 2 ^ 53 :=
    (Nat.add_le_add hn hm).trans (by decide)
  have hexact := ofNat_denotes_self (f := .binary64) hdigits (by decide)
    (by decide)
  have hnorm := hndenotes.add_natCast hmdenotes hdigits (by decide) (by decide)
  have hwritten := hnorm.eq_of_unsigned hexact
    ((sumTerm_unsigned _).add (areaTerm_unsigned _)) (ofNat_unsigned _)
  refine ⟨n, m, ⟨hnleast, hmleast⟩, hexact, ?_⟩
  unfold cubicNorm
  rw [pooledRegion_eq, ← hwritten, ← cubeSum_eq_magnitudeCubes]
  rfl

/-- What pooling a band comes to, where `n` is the term of its magnitudes
and `m` the term of its area: the region, the sum on a machine, the result
and its value, and how the result depends on the samples. -/
structure NormLaw (band : Raster Int16 d) (n m : ℕ) : Prop where
  region : scoredRegion d borderFactor = .ok (innerRegion d)
  machine : cubeSumChecked band (innerRegion d)
    = some (magnitudeCubes band (innerRegion d))
  terms : ExactNorm band (innerRegion d) n m
  norm : cubicNorm band borderFactor = .ok (.ofNat (n + m))
  value : (ofNat (n + m) : Binary64).Denotes (n + m : ℕ)
  magnitudes_only : ∀ other : Raster Int16 d,
    (∀ (i : Fin d.height) (j : Fin d.width), (innerRegion d).Contains i j →
      (other i j).toInt.natAbs = (band i j).toInt.natAbs) →
    cubicNorm other borderFactor = cubicNorm band borderFactor
  monotone : ∀ other : Raster Int16 d,
    (∀ (i : Fin d.height) (j : Fin d.width), (innerRegion d).Contains i j →
      (other i j).toInt.natAbs ≤ (band i j).toInt.natAbs) →
    ∃ k ≤ n, ExactNorm other (innerRegion d) k m ∧
      cubicNorm other borderFactor = .ok (.ofNat (k + m))

/-- THE CUBIC NORM IS EXACT: up to a sum of `2 ^ 51` over up to `2 ^ 31`
samples, pooling returns the sum of the two exact ceilings. It sees nothing
of the samples but their magnitudes, and does not fall where they grow. -/
theorem cubicNorm_exact (band : Raster Int16 d)
    (hsum : magnitudeCubes band (innerRegion d) ≤ 2 ^ 51)
    (harea : (innerRegion d).area ≤ 2 ^ 31) :
    ∃ n m, NormLaw band n m := by
  obtain ⟨n, m, hterms, hvalue, hnorm⟩ := exists_exactNorm hsum harea
  -- smaller magnitudes keep the bound of the sum, so their norm is exact too
  have hlower (other : Raster Int16 d)
      (h : ∀ (i : Fin d.height) (j : Fin d.width),
        (innerRegion d).Contains i j →
        (other i j).toInt.natAbs ≤ (band i j).toInt.natAbs) :
      ∃ k ≤ n, ExactNorm other (innerRegion d) k m ∧
        cubicNorm other borderFactor = .ok (.ofNat (k + m)) := by
    have hle := magnitudeCubes_mono h
    obtain ⟨k, l, hother, -, hresult⟩ :=
      exists_exactNorm (hle.trans hsum) harea
    obtain rfl : l = m := hother.area.unique hterms.area
    exact ⟨k, hterms.le hother hle, hother, hresult⟩
  exact ⟨n, m, {
    region := scoredRegion_eq d
    machine := by
      rw [← cubeSum_eq_magnitudeCubes] at hsum ⊢
      exact cubeSumChecked_eq (hsum.trans (by decide))
    terms := hterms
    norm := hnorm
    value := hvalue
    magnitudes_only := fun other h => by
      obtain ⟨k, hk, hother, hresult⟩ := hlower other fun i j hij =>
        (h i j hij).le
      have hn : n ≤ k := hother.le hterms (magnitudeCubes_mono fun i j hij =>
        (h i j hij).ge)
      rw [hresult, hnorm, le_antisymm hk hn]
    monotone := hlower }⟩

/-- Two samples, of full range and of one: the sum exceeds the cube of
`2 ^ 15` by one, and the norm counts it. -/
theorem cubicNorm_exact_aboveCube :
    cubicNorm (d := ⟨2, 1⟩) (fun _ j => if j = 0 then -32768 else 1)
      borderFactor = .ok (.ofNat 32770) := by
  have hsum : magnitudeCubes (d := ⟨2, 1⟩)
      (fun _ j => if j = 0 then -32768 else 1) (innerRegion ⟨2, 1⟩)
        = 32768 ^ 3 + 1 := by
    decide +kernel
  have harea : (innerRegion ⟨2, 1⟩).area = 2 := by decide +kernel
  obtain ⟨n, m, h⟩ := cubicNorm_exact (d := ⟨2, 1⟩)
    (fun _ j => if j = 0 then -32768 else 1) (hsum.le.trans (by decide))
    (harea.le.trans (by decide))
  have hn := h.terms.magnitudes
  have hm := h.terms.area
  rw [hsum] at hn
  rw [harea] at hm
  have hn' : n = 32769 :=
    hn.unique (isLeast_root (m := 32768) (by omega) (by decide))
  have hm' : m = 1 :=
    hm.unique (isAreaRoot_succ (m := 0) (by decide) (by decide)).isLeast
  rw [h.norm, hn', hm']

end Pooling

end AdditiveDetail

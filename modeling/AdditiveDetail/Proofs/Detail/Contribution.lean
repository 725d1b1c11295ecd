/-
What a band contributes is a whole number.

Both terms of a contribution are cube roots rounded up, so they denote
whole numbers, and these are small: the cubes of a band of at most
`2 ^ 31` samples sum to at most `2 ^ 76`, and a root of that to at most
`2 ^ 26`. So the three bands of a scale are added without any rounding
(`pooled_denotes`). The term of the area is at least one as soon as there
is an area. Neither term has a minus sign, not even where it is zero.
-/
import Mathlib.Algebra.BigOperators.Fin
import Mathlib.Algebra.Order.BigOperators.Group.Finset
import AdditiveDetail.Proofs.Binary.RootOrder
import AdditiveDetail.Proofs.Binary.Signs
import AdditiveDetail.Proofs.Detail.Border
import AdditiveDetail.Proofs.Detail.Stages

namespace AdditiveDetail

open Binary

/-- The region holds a place. -/
def Region.Contains (r : Region) (i j : ℕ) : Prop :=
  (r.top ≤ i ∧ i < r.bottom) ∧ r.left ≤ j ∧ j < r.right

instance (r : Region) (i j : ℕ) : Decidable (r.Contains i j) :=
  inferInstanceAs (Decidable (_ ∧ _))

namespace Pooling

-- ================================================================= cube sums

theorem cubed_le (x : Int16) : cubed x ≤ 2 ^ 45 := by
  have h : x.toInt.natAbs ≤ 2 ^ 15 := by
    have := x.toInt_lt
    have := x.le_toInt
    omega
  have hcube : 2 ^ 45 = 2 ^ 15 * 2 ^ 15 * 2 ^ 15 := by
    rw [← Nat.pow_add, ← Nat.pow_add]
  rw [hcube]
  exact Nat.mul_le_mul (Nat.mul_le_mul h h) h

/-- A loop that adds its terms computes their sum. -/
theorem foldl_add_eq_sum {n : ℕ} (term : Fin n → ℕ) (start : ℕ) :
    Fin.foldl n (fun sum j => sum + term j) start = start + ∑ j, term j := by
  induction n with
  | zero => simp
  | succ n ih =>
      rw [Fin.foldl_succ_last, Fin.sum_univ_castSucc, ih fun j => term j.castSucc,
        Nat.add_assoc]

/-- The sum of cubes as a sum over all places of a band. -/
theorem cubeSum_eq {d : Dims} (band : Raster Int16 d) (r : Region) :
    cubeSum band r = ∑ i : Fin d.height, ∑ j : Fin d.width,
      if r.Contains i j then cubed (band i j) else 0 := by
  have hskip (counts : Prop) [Decidable counts] (sum term : ℕ) :
      (if counts then sum + term else sum)
        = sum + if counts then term else 0 := by
    split <;> rfl
  have hrow (i : Fin d.height) (sum : ℕ) :
      (if r.top ≤ i.val ∧ i.val < r.bottom then
        Fin.foldl d.width (fun sum j =>
          if r.left ≤ j.val ∧ j.val < r.right then sum + cubed (band i j)
          else sum) sum
      else sum)
        = sum + ∑ j : Fin d.width,
            if r.Contains i j then cubed (band i j) else 0 := by
    simp only [hskip, foldl_add_eq_sum]
    by_cases hi : r.top ≤ i.val ∧ i.val < r.bottom <;>
      simp [Region.Contains, hi]
  unfold cubeSum
  split
  · next hw =>
      have hempty (i : Fin d.height) : (∑ j : Fin d.width,
          if r.Contains i j then cubed (band i j) else 0) = 0 :=
        Finset.sum_eq_zero fun j _ => absurd j.isLt (by omega)
      simp only [hempty, Finset.sum_const_zero]
  · simp only [hrow, foldl_add_eq_sum, Nat.zero_add]

/-- Every sample of a band adds a bounded cube. -/
theorem cubeSum_le {d : Dims} {band : Raster Int16 d} {bound : ℕ}
    (h : ∀ i j, cubed (band i j) ≤ bound) (r : Region) :
    cubeSum band r ≤ d.area * bound := by
  have hterm (i : Fin d.height) (j : Fin d.width) :
      (if r.Contains i j then cubed (band i j) else 0) ≤ bound := by
    split
    · exact h i j
    · exact Nat.zero_le _
  have hrow (i : Fin d.height) : (∑ j : Fin d.width,
      if r.Contains i j then cubed (band i j) else 0) ≤ d.width * bound := by
    simpa using Finset.sum_le_card_nsmul Finset.univ _ bound
      fun j _ => hterm i j
  rw [cubeSum_eq]
  calc _ ≤ d.height * (d.width * bound) := by
        simpa using Finset.sum_le_card_nsmul Finset.univ _ _
          fun i _ => hrow i
    _ = d.area * bound := by
        rw [Dims.area, Nat.mul_comm d.width d.height, Nat.mul_assoc]

theorem innerRegion_area (d : Dims) :
    (innerRegion d).area
      = (d.height - border d.height borderFactor - border d.height borderFactor)
        * (d.width - border d.width borderFactor - border d.width borderFactor) :=
  rfl

theorem innerRegion_area_le (d : Dims) : (innerRegion d).area ≤ d.area := by
  rw [innerRegion_area, Dims.area, Nat.mul_comm d.width]
  exact Nat.mul_le_mul (by omega) (by omega)

theorem innerRegion_area_pos {d : Dims} (h : d.Nonempty) :
    0 < (innerRegion d).area := by
  have htop := border_lt h.height_pos
  have hleft := border_lt h.width_pos
  rw [innerRegion_area]
  exact Nat.mul_pos (by omega) (by omega)

-- ===================================================================== terms

/-- How far a rounded cube root reaches, and when it is not zero. -/
theorem cbrt_bounds {x : Binary64} {a : ℚ} (hx : x.Denotes a) (h0 : 0 ≤ a)
    {k : ℕ} (hk : k ≤ 53) (ha : a ≤ 2 ^ (3 * k)) :
    ∃ c, x.cbrt.Denotes c ∧ 0 ≤ c ∧ c ≤ 2 ^ k ∧
      (2 ^ (-6 : ℤ) ≤ a → 0 < c) := by
  rcases h0.eq_or_lt with rfl | hpos
  · exact ⟨0, hx.cbrt_zero, le_rfl, by positivity,
      fun h => absurd h (not_le.2 (two_zpow_pos _))⟩
  · have hlimit : a ≤ Format.binary64.limit ^ 3 := by
      have h : (2 : ℚ) ^ k ≤ Format.binary64.limit := by
        rw [← zpow_natCast]
        exact Format.two_zpow_le_limit (show (k : ℤ) ≤ 971 + 53 - 1 by omega)
      refine ha.trans ?_
      rw [mul_comm, pow_mul]
      exact pow_le_pow_left₀ (by positivity) h 3
    obtain ⟨t, hcbrt, ht, hside⟩ := hx.cbrt hpos hlimit
    refine ⟨_, hcbrt, Format.nearest_nonneg ht.le, ?_, fun h => ?_⟩
    · apply Format.nearest_le_of_holds
      · rw [← zpow_natCast]
        exact Format.holds_two_zpow (show (-1074 : ℤ) ≤ k by omega)
      · have h := (hside 1 k Nat.one_le_two_pow).2.2
        rw [Nat.cast_one, one_mul, zpow_natCast, ← pow_mul, mul_comm k] at h
        exact h ha
    · have hquarter := (hside 1 (-2) Nat.one_le_two_pow).1.2
      rw [Nat.cast_one, one_mul, ← zpow_natCast, ← zpow_mul] at hquarter
      exact (two_zpow_pos (-2)).trans_le (Format.le_nearest_of_holds
        (Format.holds_two_zpow (by decide)) (hquarter h))

/-- A cube root rounded up is a whole number: the ceiling of the rounded
root, and not zero unless the radicand is very small. -/
theorem ceil_cbrt_denotes {x : Binary64} {a : ℚ} (hx : x.Denotes a)
    (h0 : 0 ≤ a) {k : ℕ} (hk : k ≤ 53) (ha : a ≤ 2 ^ (3 * k)) :
    ∃ (c : ℚ) (n : ℕ), x.cbrt.Denotes c ∧ x.cbrt.ceil.Denotes n ∧ ⌈c⌉ = n ∧
      n ≤ 2 ^ k ∧ (2 ^ (-6 : ℤ) ≤ a → 1 ≤ n) := by
  obtain ⟨c, hc, hc0, hck, hc1⟩ := cbrt_bounds hx h0 hk ha
  obtain ⟨n, hn⟩ := Int.eq_ofNat_of_zero_le (Int.ceil_nonneg hc0)
  have hle : n ≤ 2 ^ k := by
    have : ⌈c⌉ ≤ 2 ^ k := Int.ceil_le.2 (by exact_mod_cast hck)
    rw [hn] at this
    exact_mod_cast this
  have hle53 : n ≤ 2 ^ 53 :=
    hle.trans (Nat.pow_le_pow_right Nat.two_pos hk)
  have hceil : ((⌈c⌉ : ℤ) : ℚ) = n := by rw [hn, Int.cast_natCast]
  refine ⟨c, n, hc, ?_, hn, hle, fun h => ?_⟩
  · have := hc.ceil (by
      rw [hceil]; exact natCast_le_limit (f := .binary64) hle53 (by decide))
    rwa [hceil, Format.nearest_of_holds
      (holds_natCast (f := .binary64) hle53 (by decide))] at this
  · have := Int.ceil_pos.2 (hc1 h)
    omega

/-- The term of a cube sum; it is not zero unless the sum is. -/
theorem sumTerm_denotes {sum : ℕ} (h : sum ≤ 2 ^ 78) :
    ∃ n : ℕ, (sumTerm sum).Denotes n ∧ n ≤ 2 ^ 26 ∧ (0 < sum → 1 ≤ n) := by
  have hle : (sum : ℚ) ≤ 2 ^ (3 * 26) := by exact_mod_cast h
  have hholds : Format.binary64.Holds (2 ^ (3 * 26)) := by
    exact_mod_cast Format.holds_two_zpow (f := .binary64) (k := 78) (by decide)
  have hlimit : (2 : ℚ) ^ (3 * 26) ≤ Format.binary64.limit := by
    exact_mod_cast Format.two_zpow_le_limit (f := .binary64) (k := 78) (by decide)
  obtain ⟨-, n, -, hn, -, hle, hone⟩ := ceil_cbrt_denotes
    (ofNat_denotes (hle.trans hlimit))
    (Format.nearest_nonneg (Nat.cast_nonneg _)) (show 26 ≤ 53 by decide)
    (Format.nearest_le_of_holds hholds hle)
  refine ⟨n, hn, hle, fun hpos => hone ?_⟩
  refine (two_zpow_le (show (-6 : ℤ) ≤ 0 by decide)).trans ?_
  apply Format.le_nearest_of_holds (Format.holds_two_zpow (by decide))
  rw [zpow_zero]
  exact_mod_cast hpos

/-- A thirty-second of an area is not rounded. -/
theorem thirtysecond_denotes {area : ℕ} (h : area ≤ 2 ^ 31) :
    (ofNat area / ofNat 32 : Binary64).Denotes (area / 32) ∧
      (area : ℚ) / 32 ≤ 2 ^ 26 := by
  have hle : (area : ℚ) ≤ 2 ^ 31 := by exact_mod_cast h
  have hdiv : (area : ℚ) / 32 ≤ 2 ^ 26 := by
    rw [div_le_iff₀ (by norm_num)]; exact hle.trans (by norm_num)
  have hholds : Format.binary64.Holds ((area : ℚ) / 32) := by
    refine ⟨area, -5, ?_, by decide, ?_⟩
    · rw [Nat.abs_cast]
      exact_mod_cast h.trans_lt (show 2 ^ 31 < 2 ^ 53 by decide)
    · rw [Int.cast_natCast, div_eq_mul_inv]
      norm_num
  have harea := ofNat_denotes_self (f := .binary64)
    (h.trans (show 2 ^ 31 ≤ 2 ^ 53 by decide)) (by decide) (by decide)
  have hthirtytwo := ofNat_denotes_self (f := .binary64)
    (show 32 ≤ 2 ^ 53 by decide) (by decide) (by decide)
  have hnn : (0 : ℚ) ≤ (area : ℚ) / 32 := by positivity
  have hquotient := harea.div hthirtytwo (by norm_num) <| by
    rw [Nat.cast_ofNat, abs_of_nonneg hnn]
    refine hdiv.trans ?_
    exact_mod_cast Format.two_zpow_le_limit (f := .binary64) (k := 26) (by decide)
  rw [Nat.cast_ofNat, Format.nearest_of_holds hholds] at hquotient
  exact ⟨hquotient, hdiv⟩

/-- The term of an area. -/
theorem areaTerm_denotes {area : ℕ} (h : area ≤ 2 ^ 31) :
    ∃ n : ℕ, (areaTerm area).Denotes n ∧ n ≤ 2 ^ 9 ∧ (0 < area → 1 ≤ n) := by
  obtain ⟨hquotient, hdiv⟩ := thirtysecond_denotes h
  have hnn : (0 : ℚ) ≤ (area : ℚ) / 32 := by positivity
  obtain ⟨-, n, -, hn, -, hle, hone⟩ := ceil_cbrt_denotes hquotient hnn
    (show 9 ≤ 53 by decide) (hdiv.trans (by norm_num))
  refine ⟨n, hn, hle, fun hpos => hone ?_⟩
  have : (1 : ℚ) ≤ area := by exact_mod_cast hpos
  rw [show (2 : ℚ) ^ (-6 : ℤ) = 1 / 64 by norm_num]
  linarith

theorem sumTerm_unsigned (sum : ℕ) : (sumTerm sum).Unsigned :=
  (ofNat_unsigned sum).cbrt.ceil

theorem areaTerm_unsigned (area : ℕ) : (areaTerm area).Unsigned :=
  ((ofNat_unsigned area).div (ofNat_unsigned 32)).cbrt.ceil

end Pooling

namespace Detail

variable {d : Dims}

/-- The terms of the three bands, as whole numbers: one for each cube sum,
and one for the area of the region that they have in common. -/
structure Terms (x : Detail d) (r : Region) (sums : Orientation → ℕ)
    (area : ℕ) : Prop where
  sum_denotes : ∀ o,
    (Pooling.sumTerm (Pooling.cubeSum (x o) r)).Denotes (sums o)
  area_denotes : (Pooling.areaTerm r.area).Denotes area
  sum_le : ∀ o, sums o ≤ 2 ^ 26
  area_le : area ≤ 2 ^ 9
  sum_pos : ∀ o, 0 < Pooling.cubeSum (x o) r → 1 ≤ sums o
  area_pos : 0 < r.area → 1 ≤ area

theorem exists_terms (x : Detail d) {r : Region} (harea : d.area ≤ 2 ^ 31)
    (hr : r.area ≤ 2 ^ 31) : ∃ sums area, x.Terms r sums area := by
  have hsum (o : Orientation) := Pooling.sumTerm_denotes (Nat.le_trans
    (Pooling.cubeSum_le (fun i j => Pooling.cubed_le (x o i j)) r)
    (show d.area * 2 ^ 45 ≤ 2 ^ 78 by omega))
  choose sums hsums hle hpos using hsum
  obtain ⟨area, harea, harea_le, harea_pos⟩ := Pooling.areaTerm_denotes hr
  exact ⟨sums, area, hsums, harea, hle, harea_le, hpos, harea_pos⟩

/-- The terms are added without any rounding. -/
theorem Terms.pooled_denotes {x : Detail d} {r : Region}
    {sums : Orientation → ℕ} {area : ℕ} (h : x.Terms r sums area) :
    (x.pooled r).Denotes (sums .horizontal + sums .vertical + sums .diagonal
      + 3 * area : ℕ) := by
  have hterm (o : Orientation) :
      (Pooling.sumTerm (Pooling.cubeSum (x o) r)
        + Pooling.areaTerm r.area).Denotes (sums o + area : ℕ) := by
    have := h.sum_le o
    have := h.area_le
    refine (h.sum_denotes o).add_natCast h.area_denotes ?_ (by decide)
      (by decide)
    exact Nat.le_trans (show sums o + area ≤ 2 ^ 27 by omega) (by decide)
  have hlist : [sums .horizontal + area, sums .vertical + area,
      sums .diagonal + area].sum
        = sums .horizontal + sums .vertical + sums .diagonal + 3 * area := by
    simp only [List.sum_cons, List.sum_nil]
    omega
  rw [← hlist]
  refine Binary.sum_denotes (.cons (hterm .horizontal) (.cons (hterm .vertical)
    (.cons (hterm .diagonal) .nil))) ?_ (by decide) (by decide)
  rw [hlist]
  have := h.sum_le .horizontal
  have := h.sum_le .vertical
  have := h.sum_le .diagonal
  have := h.area_le
  exact Nat.le_trans (show _ ≤ 2 ^ 28 by omega) (by decide)

/-- The three bands of a scale contribute a whole number of at least three. -/
theorem pooled_denotes (x : Detail d) (h : d.Nonempty) (harea : d.area ≤ 2 ^ 31) :
    ∃ n : ℕ, (x.pooled (Pooling.innerRegion d)).Denotes n ∧ 3 ≤ n ∧
      n ≤ 2 ^ 28 := by
  obtain ⟨sums, area, hterms⟩ := x.exists_terms harea
    (Nat.le_trans (Pooling.innerRegion_area_le d) harea)
  have := hterms.area_pos (Pooling.innerRegion_area_pos h)
  have := hterms.area_le
  have := hterms.sum_le .horizontal
  have := hterms.sum_le .vertical
  have := hterms.sum_le .diagonal
  exact ⟨_, hterms.pooled_denotes, by omega, by omega⟩

end Detail

end AdditiveDetail

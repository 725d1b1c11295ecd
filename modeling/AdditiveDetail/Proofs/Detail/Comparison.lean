/-
More detail contributes more.

A contribution is made of rounded roots, and rounding keeps the order of
roots. So detail that is nowhere greater than other detail does not
contribute more (`pooled_atMost`), and detail that is not zero somewhere in
the region contributes more than none (`pooled_zero_less`). Detail that is
zero contributes the term of the area alone, three times, and that term is
the exact ceiling of a cube root (`pooled_zero_denotes`).
-/
import AdditiveDetail.Proofs.Detail.Contribution

namespace AdditiveDetail

open Binary

namespace Pooling

-- ===================================================================== roots

/-- Cube roots rounded up keep the order of their radicands. -/
theorem ceil_cbrt_le {x y : Binary64} {a b : ℚ} (hx : x.Denotes a)
    (hy : y.Denotes b) (h0 : 0 ≤ a) (h : a ≤ b) {k : ℕ} (hk : k ≤ 53)
    (hb : b ≤ 2 ^ (3 * k)) {m n : ℕ} (hm : x.cbrt.ceil.Denotes m)
    (hn : y.cbrt.ceil.Denotes n) : m ≤ n := by
  obtain ⟨c, m', hc, hm', hcm, -⟩ := ceil_cbrt_denotes hx h0 hk (h.trans hb)
  obtain ⟨d, n', hd, hn', hdn, -⟩ := ceil_cbrt_denotes hy (h0.trans h) hk hb
  have hlimit : b ≤ Format.binary64.limit ^ 3 := by
    have hpow : (2 : ℚ) ^ k ≤ Format.binary64.limit := by
      rw [← zpow_natCast]
      exact Format.two_zpow_le_limit (show (k : ℤ) ≤ 971 + 53 - 1 by omega)
    refine hb.trans ?_
    rw [mul_comm, pow_mul]
    exact pow_le_pow_left₀ (by positivity) hpow 3
  obtain ⟨c', d', hc', hd', hcd⟩ := hx.cbrt_mono hy h0 h hlimit
  rw [hc'.unique hc, hd'.unique hd] at hcd
  have hceil := Int.ceil_le_ceil hcd
  rw [hcm, hdn] at hceil
  have hmm : m = m' := Nat.cast_injective (hm.unique hm')
  have hnn : n = n' := Nat.cast_injective (hn.unique hn')
  omega

/-- A greater sum has no smaller term. -/
theorem sumTerm_mono {s t : ℕ} (h : s ≤ t) (ht : t ≤ 2 ^ 78) {m n : ℕ}
    (hm : (sumTerm s).Denotes m) (hn : (sumTerm t).Denotes n) : m ≤ n := by
  have hlimit {u : ℕ} (hu : u ≤ 2 ^ 78) : (u : ℚ) ≤ Format.binary64.limit := by
    refine le_trans ?_ (Format.two_zpow_le_limit (k := 78) (by decide))
    exact_mod_cast hu
  have hle : Format.binary64.nearest t ≤ 2 ^ (3 * 26) := by
    apply Format.nearest_le_of_holds
    · exact_mod_cast Format.holds_two_zpow (f := .binary64) (k := 78) (by decide)
    · exact_mod_cast ht
  exact ceil_cbrt_le (ofNat_denotes (hlimit (h.trans ht)))
    (ofNat_denotes (hlimit ht)) (Format.nearest_nonneg (Nat.cast_nonneg s))
    (Format.nearest_mono (Nat.cast_le.2 h)) (show 26 ≤ 53 by decide) hle hm hn

/-- The term of nothing. -/
theorem sumTerm_zero : (sumTerm 0).Denotes (0 : ℕ) := by
  have h : sumTerm 0 = zero false := rfl
  rw [h, Nat.cast_zero]
  exact zero_denotes false

-- =========================================================== the area's term

/-- The least natural whose cube, thirty-two times, reaches an area: the
ceiling of the cube root of a thirty-second of it. -/
def IsAreaRoot (n area : ℕ) : Prop := ∀ j : ℕ, n ≤ j ↔ area ≤ 32 * j ^ 3

/-- An area between two cubes, thirty-two times each. -/
theorem isAreaRoot_succ {m area : ℕ} (hlow : 32 * m ^ 3 < area)
    (hhigh : area ≤ 32 * (m + 1) ^ 3) : IsAreaRoot (m + 1) area := by
  intro j
  constructor
  · intro hj
    exact hhigh.trans (Nat.mul_le_mul_left _ (Nat.pow_le_pow_left hj 3))
  · intro hj
    by_contra hlt
    have := Nat.mul_le_mul_left 32
      (Nat.pow_le_pow_left (show j ≤ m by omega) 3)
    omega

/-- What some cube reaches stands between two cubes that follow each other,
with a weight on all of them. -/
theorem exists_between_cubes {weight bound n : ℕ} (hpos : 0 < n)
    (h : n ≤ weight * bound ^ 3) :
    ∃ m < bound, weight * m ^ 3 < n ∧ n ≤ weight * (m + 1) ^ 3 := by
  have hex : ∃ k : ℕ, n ≤ weight * k ^ 3 := ⟨bound, h⟩
  obtain ⟨m, hm⟩ : ∃ m, Nat.find hex = m + 1 := by
    refine Nat.exists_eq_succ_of_ne_zero fun h0 => ?_
    have := Nat.find_spec hex
    rw [h0] at this
    omega
  have hspec := Nat.find_spec hex
  have hmin := Nat.find_min hex (show m < Nat.find hex by omega)
  have hle := Nat.find_min' hex h
  rw [hm] at hspec hle
  exact ⟨m, by omega, by omega, hspec⟩

/-- The term of an area is the exact ceiling of its root: the root of an
area that exceeds a cube exceeds the root of the cube by more than
`2 ^ -26`. -/
theorem areaTerm_areaRoot {area : ℕ} (hpos : 0 < area) (h : area ≤ 2 ^ 31)
    {n : ℕ} (hn : (areaTerm area).Denotes n) : IsAreaRoot n area := by
  obtain ⟨m, hm, hlow, hhigh⟩ := exists_between_cubes hpos
    (show area ≤ 32 * (2 ^ 9) ^ 3 from h.trans (by decide))
  obtain ⟨hquotient, -⟩ := thirtysecond_denotes h
  have hdenotes := hquotient.ceil_cbrt (m := m) (k := 26) ?_ ?_ ?_
  · have hmn : n = m + 1 := Nat.cast_injective (hn.unique hdenotes)
    rw [hmn]
    exact isAreaRoot_succ hlow hhigh
  · have hm' : (m : ℚ) ≤ 2 ^ 9 := by exact_mod_cast hm.le
    have hstep : (32 : ℚ) * m ^ 3 + 1 ≤ area := by exact_mod_cast hlow
    have hm0 : (0 : ℚ) ≤ m := Nat.cast_nonneg m
    rw [le_div_iff₀ (by norm_num), zpow_neg, zpow_natCast]
    nlinarith
  · rw [div_le_iff₀ (by norm_num)]
    have : (area : ℚ) ≤ 32 * (m + 1 : ℕ) ^ 3 := by exact_mod_cast hhigh
    linarith
  · exact Nat.le_trans (Nat.mul_le_mul_right _ hm) (by decide)

end Pooling

-- ==================================================================== detail

namespace Detail

variable {d : Dims} {x y : Detail d} {r : Region}
  {sums sums' : Orientation → ℕ} {area area' : ℕ}

/-- The region has one area. -/
theorem Terms.area_eq (hx : x.Terms r sums area) (hy : y.Terms r sums' area') :
    area = area' :=
  Nat.cast_injective (hx.area_denotes.unique hy.area_denotes)

/-- Detail that is nowhere greater has no greater terms. -/
theorem Terms.sums_le (hx : x.Terms r sums area) (hy : y.Terms r sums' area')
    (hd : d.area ≤ 2 ^ 31)
    (h : ∀ o i j, Pooling.cubed (x o i j) ≤ Pooling.cubed (y o i j))
    (o : Orientation) : sums o ≤ sums' o := by
  refine Pooling.sumTerm_mono ?_ ?_ (hx.sum_denotes o) (hy.sum_denotes o)
  · rw [Pooling.cubeSum_eq, Pooling.cubeSum_eq]
    refine Finset.sum_le_sum fun i _ => Finset.sum_le_sum fun j _ => ?_
    split
    · exact h o i j
    · exact le_rfl
  · have := Pooling.cubeSum_le (fun i j => Pooling.cubed_le (y o i j)) r
    omega

/-- Detail that is zero has no terms but that of the area. -/
theorem Terms.sums_zero (h : (zero d).Terms r sums area) (o : Orientation) :
    sums o = 0 := by
  have hsum : Pooling.cubeSum (zero d o) r = 0 := by
    rw [Pooling.cubeSum_eq]
    simp [zero, Pooling.cubed]
  have := h.sum_denotes o
  rw [hsum] at this
  exact Nat.cast_injective (this.unique Pooling.sumTerm_zero)

/-- Detail that is not zero somewhere in the region has a term. -/
theorem Terms.one_le_sums (h : x.Terms r sums area) {o : Orientation}
    {i : Fin d.height} {j : Fin d.width} (hij : r.Contains i j)
    (hx : x o i j ≠ 0) : 1 ≤ sums o := by
  refine h.sum_pos o ?_
  have hcubed : 0 < Pooling.cubed (x o i j) := by
    have hne : (x o i j).toInt ≠ 0 := fun h0 => hx (Int16.toInt_inj.1 h0)
    have hpos := Int.natAbs_pos.2 hne
    exact Nat.mul_pos (Nat.mul_pos hpos hpos) hpos
  rw [Pooling.cubeSum_eq]
  calc 0 < Pooling.cubed (x o i j) := hcubed
    _ = if r.Contains i j then Pooling.cubed (x o i j) else 0 :=
        (if_pos hij).symm
    _ ≤ ∑ k : Fin d.width,
          if r.Contains i k then Pooling.cubed (x o i k) else 0 :=
        Finset.single_le_sum
          (f := fun k : Fin d.width =>
            if r.Contains i k then Pooling.cubed (x o i k) else 0)
          (fun _ _ => Nat.zero_le _) (Finset.mem_univ j)
    _ ≤ _ := Finset.single_le_sum
          (f := fun l : Fin d.height => ∑ k : Fin d.width,
            if r.Contains l k then Pooling.cubed (x o l k) else 0)
          (fun _ _ => Nat.zero_le _) (Finset.mem_univ i)

/-- Detail that is nowhere greater in magnitude does not contribute more. -/
theorem pooled_atMost (harea : d.area ≤ 2 ^ 31)
    (h : ∀ o i j, (x o i j).toInt.natAbs ≤ (y o i j).toInt.natAbs) :
    (x.pooled (Pooling.innerRegion d)).atMost
      (y.pooled (Pooling.innerRegion d)) := by
  have hregion : (Pooling.innerRegion d).area ≤ 2 ^ 31 :=
    (Pooling.innerRegion_area_le d).trans harea
  obtain ⟨sums, area, hx⟩ := x.exists_terms harea hregion
  obtain ⟨sums', area', hy⟩ := y.exists_terms harea hregion
  have hcubed (o : Orientation) (i : Fin d.height) (j : Fin d.width) :
      Pooling.cubed (x o i j) ≤ Pooling.cubed (y o i j) :=
    Nat.mul_le_mul (Nat.mul_le_mul (h o i j) (h o i j)) (h o i j)
  have hle (o : Orientation) : sums o ≤ sums' o :=
    hx.sums_le hy harea hcubed o
  rw [hx.pooled_denotes.atMost_iff hy.pooled_denotes, hx.area_eq hy]
  have hh := hle .horizontal
  have hv := hle .vertical
  have hd := hle .diagonal
  exact_mod_cast (by omega)

/-- Detail that is zero contributes three times the term of the area. -/
theorem pooled_zero_denotes (h : d.Nonempty) (harea : d.area ≤ 2 ^ 31) :
    ∃ n, Pooling.IsAreaRoot n (Pooling.innerRegion d).area ∧
      ((zero d).pooled (Pooling.innerRegion d)).Denotes (3 * n : ℕ) := by
  have hregion : (Pooling.innerRegion d).area ≤ 2 ^ 31 :=
    (Pooling.innerRegion_area_le d).trans harea
  obtain ⟨sums, area, hterms⟩ := (zero d).exists_terms harea hregion
  refine ⟨area, Pooling.areaTerm_areaRoot (Pooling.innerRegion_area_pos h)
    hregion hterms.area_denotes, ?_⟩
  have hpooled := hterms.pooled_denotes
  simp only [hterms.sums_zero, Nat.zero_add] at hpooled
  exact hpooled

/-- Detail that is not zero somewhere in the region contributes more than
detail that is zero. -/
theorem pooled_zero_less (harea : d.area ≤ 2 ^ 31) {o : Orientation}
    {i : Fin d.height} {j : Fin d.width}
    (hij : (Pooling.innerRegion d).Contains i j) (hx : x o i j ≠ 0) :
    ((zero d).pooled (Pooling.innerRegion d)).less
      (x.pooled (Pooling.innerRegion d)) := by
  have hregion : (Pooling.innerRegion d).area ≤ 2 ^ 31 :=
    (Pooling.innerRegion_area_le d).trans harea
  obtain ⟨sums, area, hzero⟩ := (zero d).exists_terms harea hregion
  obtain ⟨sums', area', hterms⟩ := x.exists_terms harea hregion
  have hone := hterms.one_le_sums hij hx
  have hlt : sums .horizontal + sums .vertical + sums .diagonal + 3 * area
      < sums' .horizontal + sums' .vertical + sums' .diagonal + 3 * area' := by
    rw [hzero.area_eq hterms]
    simp only [hzero.sums_zero]
    cases o <;> omega
  rw [hzero.pooled_denotes.less_iff hterms.pooled_denotes]
  exact_mod_cast hlt

end Detail

end AdditiveDetail

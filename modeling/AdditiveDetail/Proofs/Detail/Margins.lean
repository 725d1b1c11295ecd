/-
Margins in exact arithmetic.

# Two roundings

A margin is a product, less one half, and each of the two is rounded. Up to
lengths of `2 ^ 50` double precision holds every sixteenth that is not
longer than an axis, and what it holds carries bounds through a rounding.
So a margin is between two sixteenths wherever the exact product is between
those that are one half greater (`Margin.le`, `Margin.ge`), and no error has
to be looked at.

# Tenths

One tenth is not held; what it is rounded to is greater, by less than one
part in `2 ^ 55`. A product with it is never below the exact tenth, so a
margin that is a whole number, at every length that ends in five, is not
rounded below it. It is too great by less than one thirty-second, which is
less than what is missing to the next whole number (`border_eq`).

# Any share up to one half

The margin of a half is one half less than a half of the axis. So two
margins never take the whole of it (`two_border_lt`), and a region is left.
-/
import AdditiveDetail.Proofs.Detail.Border
import AdditiveDetail.Proofs.Detail.Indexed

namespace AdditiveDetail

open Binary

namespace Pooling

-- ================================================================= sixteenths

/-- Double precision holds sixteenths. -/
theorem holds_sixteenth {m : ℤ} (hm : |m| ≤ 2 ^ 53) :
    Format.binary64.Holds (m / 16) := by
  have h := Format.holds_of_le (f := .binary64) (e := -4) hm (by decide)
  have hfour : (2 : ℚ) ^ (-4 : ℤ) = 1 / 16 := by norm_num
  rw [hfour, mul_one_div] at h
  exact h

/-- What becomes of a product `x` when one half is taken off: a bound in
sixteenths is kept. -/
structure Margin (x r : ℚ) : Prop where
  le : ∀ m : ℤ, -8 ≤ m → m ≤ 2 ^ 53 - 8 → x ≤ (m + 8) / 16 → r ≤ m / 16
  ge : ∀ m : ℤ, -8 ≤ m → m ≤ 2 ^ 53 - 8 → (m + 8) / 16 ≤ x → m / 16 ≤ r

/-- A product that is rounded, and one half less that is rounded again. -/
theorem margin_nearest (x : ℚ) :
    Margin x (Format.binary64.nearest
      (Format.binary64.nearest x - 1 / 2)) := by
  have hheld {m : ℤ} (hlow : -8 ≤ m) (hhigh : m ≤ 2 ^ 53 - 8) :
      Format.binary64.Holds (m / 16) ∧
        Format.binary64.Holds ((m + 8) / 16) := by
    constructor
    · exact holds_sixteenth (abs_le.2 ⟨by omega, by omega⟩)
    · have hsum : |m + 8| ≤ 2 ^ 53 := abs_le.2 ⟨by omega, by omega⟩
      exact_mod_cast holds_sixteenth hsum
  constructor
  · intro m hlow hhigh hx
    obtain ⟨hbound, habove⟩ := hheld hlow hhigh
    apply Format.nearest_le_of_holds hbound
    have hproduct := Format.nearest_le_of_holds habove hx
    linarith
  · intro m hlow hhigh hx
    obtain ⟨hbound, habove⟩ := hheld hlow hhigh
    apply Format.le_nearest_of_holds hbound
    have hproduct := Format.le_nearest_of_holds habove hx
    linarith

-- ============================================================ a single margin

/-- The length of an axis and a share of up to one half have a margin. -/
theorem exists_margin {n : ℕ} (hn : n < 2 ^ 50) {factor : Binary64} {q : ℚ}
    (hfactor : factor.Denotes q) (h0 : 0 ≤ q) (h1 : q ≤ 1 / 2) :
    ∃ r, (ofNat n * factor - ofDecimal false 5 (-1)).Denotes r ∧
      Margin (n * q) r := by
  have hlimit {x : ℚ} (hx0 : -(2 ^ 50) ≤ x) (hx : x ≤ 2 ^ 50) :
      |x| ≤ Format.binary64.limit := by
    apply abs_le_limit_of_le_two_pow _ (by decide)
    exact (abs_le.2 ⟨hx0, hx⟩).trans (by norm_num [Format.binary64])
  have hlength : (n : ℚ) ≤ 2 ^ 50 := by exact_mod_cast hn.le
  have hn0 : (0 : ℚ) ≤ n := Nat.cast_nonneg n
  have hproduct0 : 0 ≤ n * q := mul_nonneg hn0 h0
  have hproduct : n * q ≤ 2 ^ 50 := by nlinarith
  have hnumber := ofNat_denotes_self (f := .binary64)
    (hn.le.trans (show 2 ^ 50 ≤ 2 ^ 53 by decide)) (by decide) (by decide)
  have hrounded := hnumber.mul hfactor (hlimit (by linarith) hproduct)
  have hround0 := Format.nearest_nonneg (f := .binary64) hproduct0
  have hround := Format.nearest_le_of_holds (f := .binary64)
    (Format.holds_two_zpow (k := 50) (by decide)) hproduct
  refine ⟨_, hrounded.sub half_denotes (hlimit ?_ ?_), margin_nearest _⟩
  · linarith
  · have : (2 : ℚ) ^ (50 : ℤ) = 2 ^ 50 := by norm_num
    linarith

/-- What is left out is the whole part of a margin; one below zero counts as
nothing. -/
theorem border_eq_floor {n : ℕ} {factor : Binary64} {r : ℚ}
    (h : (ofNat n * factor - ofDecimal false 5 (-1)).Denotes r)
    (hlow : -1 < r) (hhigh : r < 2 ^ 63) : border n factor = ⌊r⌋₊ := by
  have hborder : border n factor
      = ((ofNat n * factor - ofDecimal false 5 (-1)).toInt (-2 ^ 63)
        (2 ^ 63 - 1) % 2 ^ 64).toNat := rfl
  rw [hborder, h.toInt_eq]
  by_cases hneg : r < 0
  · have hceil : ⌈r⌉ = 0 := by
      rw [Int.ceil_eq_zero_iff]
      exact ⟨hlow, hneg.le⟩
    rw [if_pos hneg, hceil, Nat.floor_of_nonpos hneg.le]
    decide
  · have hr := not_lt.1 hneg
    have hfloor : ⌊r⌋ = (⌊r⌋₊ : ℤ) := (Int.natCast_floor_eq_floor hr).symm
    have hword : ⌊r⌋ < 2 ^ 63 := by
      rw [Int.floor_lt]
      exact_mod_cast hhigh
    rw [if_neg hneg]
    omega

/-- The whole part of the margin is what is left out. -/
theorem exists_border {n : ℕ} (hn : n < 2 ^ 50) {factor : Binary64} {q : ℚ}
    (hfactor : factor.Denotes q) (h0 : 0 ≤ q) (h1 : q ≤ 1 / 2) :
    ∃ r, Margin (n * q) r ∧ border n factor = ⌊r⌋₊ := by
  obtain ⟨r, hdenotes, hmargin⟩ := exists_margin hn hfactor h0 h1
  have hn0 : (0 : ℚ) ≤ n := Nat.cast_nonneg n
  have hlow := hmargin.ge (-8) (by omega) (by omega)
    (by norm_num; exact mul_nonneg hn0 h0)
  have hhigh := hmargin.le (8 * n) (by omega) (by omega)
    (by push_cast; nlinarith)
  have hlength : (n : ℚ) < 2 ^ 50 := by exact_mod_cast hn
  push_cast at hlow hhigh
  exact ⟨r, hmargin, border_eq_floor hdenotes (by linarith) (by linarith)⟩

-- ========================================================= shares up to a half

/-- A margin and its opposite one leave something of an axis, for every share
of up to one half. -/
theorem two_border_lt {n : ℕ} (hpos : 0 < n) (hn : n < 2 ^ 50)
    {factor : Binary64} {q : ℚ} (hfactor : factor.Denotes q) (h0 : 0 ≤ q)
    (h1 : q ≤ 1 / 2) : 2 * border n factor < n := by
  obtain ⟨r, hmargin, hborder⟩ := exists_border hn hfactor h0 h1
  have hn0 : (0 : ℚ) ≤ n := Nat.cast_nonneg n
  have hhalf : r ≤ (8 * (n - 1) : ℤ) / 16 := by
    apply hmargin.le
    · omega
    · omega
    · push_cast
      nlinarith
  rw [hborder]
  by_cases hr : 0 ≤ r
  · have hfloor := Nat.floor_le hr
    push_cast at hhalf
    have hlt : ((2 * ⌊r⌋₊ : ℕ) : ℚ) < n := by
      push_cast
      linarith
    exact_mod_cast hlt
  · rw [Nat.floor_of_nonpos (not_le.1 hr).le]
    exact hpos

-- ====================================================================== tenths

theorem borderFactor_canonical :
    Format.binary64.Canonical 7205759403792794 (-56) := by
  decide

theorem borderFactor_eq : borderFactor
    = .finite false 7205759403792794 (-56) borderFactor_canonical := by
  decide +kernel

/-- One tenth, rounded: a little more than one tenth. -/
theorem borderFactor_denotes_value :
    borderFactor.Denotes (1 / 10 + 1 / (5 * 2 ^ 55)) := by
  rw [borderFactor_eq]
  show value false 7205759403792794 (-56) = _
  rw [value_false]
  norm_num

/-- The margin of a tenth is exact: one half less than a tenth of the axis,
where that is not below zero, and the fraction dropped. -/
theorem border_eq {n : ℕ} (hn : n < 2 ^ 50) :
    border n borderFactor = if 5 ≤ n then (n - 5) / 10 else 0 := by
  obtain ⟨r, hmargin, hborder⟩ :=
    exists_border hn borderFactor_denotes_value (by norm_num) (by norm_num)
  have hlength : (n : ℚ) < 2 ^ 50 := by exact_mod_cast hn
  have hn0 : (0 : ℚ) ≤ n := Nat.cast_nonneg n
  rw [hborder]
  by_cases hfive : 5 ≤ n
  · obtain ⟨k, hk⟩ : ∃ k, (n - 5) / 10 = k := ⟨_, rfl⟩
    have hlow : (10 * k + 5 : ℚ) ≤ n := by
      exact_mod_cast (show 10 * k + 5 ≤ n by omega)
    have hhigh : (n : ℚ) ≤ 10 * k + 14 := by
      exact_mod_cast (show n ≤ 10 * k + 14 by omega)
    have hge := hmargin.ge (16 * k) (by omega) (by omega)
      (by push_cast; linarith)
    have hle := hmargin.le (16 * k + 15) (by omega) (by omega)
      (by push_cast; linarith)
    push_cast at hge hle
    rw [if_pos hfive, hk, Nat.floor_eq_iff (by linarith)]
    constructor
    · linarith
    · linarith
  · have hfour : (n : ℚ) ≤ 4 := by
      exact_mod_cast (show n ≤ 4 by omega)
    have hle := hmargin.le 0 (by omega) (by omega)
      (by push_cast; linarith)
    rw [if_neg hfive, Nat.floor_eq_zero]
    push_cast at hle
    linarith

-- ================================================================== the region

/-- A region of a picture that leaves the same margin on both sides of an
axis, and something between them. -/
structure Centred (r : Region) (d : Dims) : Prop where
  top_lt_bottom : r.top < r.bottom
  bottom_le : r.bottom ≤ d.height
  left_lt_right : r.left < r.right
  right_le : r.right ≤ d.width
  rows_eq : d.height - r.bottom = r.top
  columns_eq : d.width - r.right = r.left

theorem Centred.area_pos {r : Region} {d : Dims} (h : Centred r d) :
    1 ≤ r.area := by
  have hrows := h.top_lt_bottom
  have hcolumns := h.left_lt_right
  exact Nat.mul_pos (by omega) (by omega)

variable {d : Dims} {factor : Binary64} {q : ℚ}

/-- What the margins leave is a region in the middle. -/
theorem exists_centred (hd : d.Nonempty) (hwidth : d.width < 2 ^ 50)
    (hheight : d.height < 2 ^ 50) (hfactor : factor.Denotes q) (h0 : 0 ≤ q)
    (h1 : q ≤ 1 / 2) :
    ∃ r, scoredRegion d factor = .ok r ∧ Centred r d ∧
      r.top = border d.height factor ∧ r.left = border d.width factor := by
  have htop := two_border_lt hd.height_pos hheight hfactor h0 h1
  have hleft := two_border_lt hd.width_pos hwidth hfactor h0 h1
  refine ⟨_, if_pos ⟨by omega, by omega⟩, ?_, rfl, rfl⟩
  constructor
  · show border d.height factor < d.height - border d.height factor
    omega
  · exact Nat.sub_le _ _
  · show border d.width factor < d.width - border d.width factor
    omega
  · exact Nat.sub_le _ _
  · exact Nat.sub_sub_self (by omega)
  · exact Nat.sub_sub_self (by omega)

/-- A region in the middle is a slice that pooling accepts. -/
theorem Centred.cubicNorm_eq {r : Region} (h : Centred r d)
    (hr : scoredRegion d factor = .ok r) (band : Raster Int16 d) :
    cubeSumIndexed band r = some (cubeSum band r) ∧
      cubicNorm band factor
        = .ok (sumTerm (cubeSum band r) + areaTerm r.area) := by
  have hrows := h.top_lt_bottom
  have hcolumns := h.left_lt_right
  have hpooled : pooledRegion d factor = .ok r := by
    unfold pooledRegion
    rw [hr]
    exact if_neg (by omega)
  constructor
  · exact cubeSumIndexed_eq h.bottom_le h.right_le
  · unfold cubicNorm
    rw [hpooled]
    rfl

/-- THE MARGINS, on axes shorter than `2 ^ 50`. The margin of a tenth is the
exact one. For every share from zero, of either sign, up to one half the
margins leave a region in the middle that is not empty, and pooling gets a
slice of the band. -/
theorem margins_exact :
    (∀ n : ℕ, 1 ≤ n → n < 2 ^ 50 →
      border n borderFactor = if 5 ≤ n then (n - 5) / 10 else 0) ∧
    ∀ (d : Dims) (factor : Binary64) (q : ℚ), d.Nonempty →
      d.width < 2 ^ 50 → d.height < 2 ^ 50 →
      factor.Denotes q → 0 ≤ q → q ≤ 1 / 2 →
      ∃ r, scoredRegion d factor = .ok r ∧ Centred r d ∧ 1 ≤ r.area ∧
        r.top = border d.height factor ∧ r.left = border d.width factor ∧
        ∀ band : Raster Int16 d,
          cubeSumIndexed band r = some (cubeSum band r) ∧
          cubicNorm band factor
            = .ok (sumTerm (cubeSum band r) + areaTerm r.area) := by
  constructor
  · intro n _ hn
    exact border_eq hn
  · intro d factor q hd hwidth hheight hfactor h0 h1
    obtain ⟨r, hr, hcentred, htop, hleft⟩ :=
      exists_centred hd hwidth hheight hfactor h0 h1
    exact ⟨r, hr, hcentred, hcentred.area_pos, htop, hleft,
      hcentred.cubicNorm_eq hr⟩

/-- The longest axis that ends in five, where the exact margin is a whole
number, and a share of one half, which leaves a single row and two columns. -/
theorem margins_exact_longest :
    (1 ≤ 1125899906842615 ∧ 1125899906842615 < 2 ^ 50 ∧
      border 1125899906842615 borderFactor = 112589990684261) ∧
    ∃ r, scoredRegion ⟨20, 11⟩ (.ofDecimal false 5 (-1)) = .ok r ∧
      Centred r ⟨20, 11⟩ ∧ r.area = 2 := by
  obtain ⟨hborder, hregion⟩ := margins_exact
  constructor
  · exact ⟨by omega, by omega, hborder _ (by omega) (by omega)⟩
  · obtain ⟨r, hr, hcentred, -⟩ := hregion ⟨20, 11⟩ _ (1 / 2) (by decide)
      (by norm_num) (by norm_num) half_denotes (by norm_num) (by norm_num)
    have hvalue : scoredRegion ⟨20, 11⟩ (.ofDecimal false 5 (-1))
        = .ok ⟨5, 6, 9, 11⟩ := by
      decide +kernel
    obtain rfl := Except.ok.inj (hr.symm.trans hvalue)
    exact ⟨_, hvalue, hcentred, by decide⟩

end Pooling

end AdditiveDetail

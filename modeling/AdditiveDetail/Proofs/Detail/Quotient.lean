/-
The gain of samples is a quotient that is rounded once.

# Rounding a quotient

The formula of the gain rounds four times. Of two integers below
`2 ^ 16`, the guard beside the reference is lost in the first rounding
(`guarded_denotes`), and the reciprocal and the product, taken in double
precision, are off by less than one part in `2 ^ 51`
(`product_reciprocal_near`). The quotient itself is either on the grid of
single precision, with sixteen digits at most, or further than that from
all of the grid (`grid_eq_of_near_quotient`): the difference has the
denominator of the quotient, and no numerator is smaller than one. So
all of them are rounded alike (`nearest_eq_of_near_quotient`).

# The clamp

What is left is to see where the clamp takes hold: `sampleGain_eq`.
-/
import Mathlib.Data.Nat.Factorization.Basic
import AdditiveDetail.Detail.Gain
import AdditiveDetail.Proofs.Binary.Denotation
import AdditiveDetail.Proofs.Binary.Grid

namespace AdditiveDetail

open Binary

-- ====================================================== quotients and the grid

/-- Beside a number of at most sixteen digits one part in `2 ^ 51` does not
count. -/
theorem nearest_eq_of_near_short {x y : ℚ} {m e : ℤ} (hx : x = m * 2 ^ e)
    (hm0 : m ≠ 0) (hm : |m| < 2 ^ 16) (he : -100 ≤ e)
    (h : |y - x| ≤ |x| * 2 ^ (-51 : ℤ)) : Format.binary32.nearest y = x := by
  have hx0 : 0 < |x| := by
    rw [hx]
    exact abs_pos.2 (mul_ne_zero (Int.cast_ne_zero.2 hm0) (two_zpow_pos e).ne')
  have hxlt : |x| < 2 ^ (16 + e) := by
    rw [hx, abs_mul, abs_of_pos (two_zpow_pos e), two_zpow_add]
    exact mul_lt_mul_of_pos_right (by exact_mod_cast hm) (two_zpow_pos e)
  have hdouble : (2 : ℚ) ^ (17 + e) = 2 * 2 ^ (16 + e) := by
    rw [two_zpow_add, two_zpow_add]; norm_num; ring
  have hhalf : |y - x| ≤ |x| * (1 / 2) :=
    h.trans (mul_le_mul_of_nonneg_left (by norm_num) hx0.le)
  have hyx := abs_sub_abs_le_abs_sub y x
  have hxy := abs_sub_abs_le_abs_sub x y
  rw [abs_sub_comm] at hxy
  have hplace := Format.placeOf_le (f := .binary32) (k := 17 + e)
    (abs_pos.1 (show 0 < |y| by linarith)) (by linarith)
    (show (-149 : ℤ) ≤ 17 + e - 24 by omega)
  have hdigits := Format.abs_lt_place (f := .binary32) y
  refine Format.nearest_eq_of_near hx
    (hplace.trans (show 17 + e - 24 ≤ e by omega)) (h.trans_lt ?_)
  have hp := two_zpow_pos (Format.binary32.placeOf y)
  generalize (2 : ℚ) ^ Format.binary32.placeOf y = unit at hdigits hp ⊢
  calc |x| * (2 : ℚ) ^ (-51 : ℤ) ≤ 2 * |y| * 2 ^ (-51 : ℤ) :=
        mul_le_mul_of_nonneg_right (by linarith) (two_zpow_pos _).le
    _ ≤ 2 * (2 ^ 24 * unit) * 2 ^ (-51 : ℤ) :=
        mul_le_mul_of_nonneg_right
          (mul_le_mul_of_nonneg_left hdigits.le two_pos.le) (two_zpow_pos _).le
    _ = 2 ^ (-26 : ℤ) * unit := by norm_num; ring
    _ < unit / 2 := by
        norm_num
        linarith

/-- A scaled natural beside a quotient, over the common denominator. -/
theorem grid_over_denominator (j t : ℕ) {r : ℕ} (hr : 0 < r) (e : ℤ) :
    ∃ c : ℚ, 0 < c ∧ j * 2 ^ e * c = (j * r * 2 ^ e.toNat : ℕ) ∧
      t / r * c = (t * 2 ^ (-e).toNat : ℕ) := by
  have hr' : (r : ℚ) ≠ 0 := Nat.cast_ne_zero.2 hr.ne'
  refine ⟨r * 2 ^ (-e).toNat, by positivity, ?_, ?_⟩
  · push_cast
    rw [two_pow_toNat e]
    ring
  · push_cast
    field_simp

/-- A number of 25 digits that differs from a quotient of integers below
`2 ^ 16` differs from it by more than one part in `2 ^ 51`. -/
theorem grid_eq_of_near_quotient {t r j : ℕ} {e : ℤ} (hr : 0 < r)
    (htlt : t < 2 ^ 16) (hrlt : r < 2 ^ 16) (hj : j ≤ 2 ^ 25)
    (h : |(j * 2 ^ e : ℚ) - t / r| ≤ t / r * 2 ^ (-51 : ℤ)) :
    (j * 2 ^ e : ℚ) = t / r := by
  obtain ⟨c, hc, hgrid, hquotient⟩ := grid_over_denominator j t hr e
  obtain ⟨m, hm⟩ : ∃ m, m = j * r * 2 ^ e.toNat := ⟨_, rfl⟩
  obtain ⟨n, hn⟩ : ∃ n, n = t * 2 ^ (-e).toNat := ⟨_, rfl⟩
  rw [← hm] at hgrid
  rw [← hn] at hquotient
  have hdiff : |(m : ℚ) - n| ≤ n * 2 ^ (-51 : ℤ) := by
    rw [← hgrid, ← hquotient, ← sub_mul, abs_mul, abs_of_pos hc,
      mul_right_comm]
    exact mul_le_mul_of_nonneg_right h hc.le
  have hdouble : n ≤ 2 * m := by
    have hhalf : |(m : ℚ) - n| ≤ n * (1 / 2) := hdiff.trans
      (mul_le_mul_of_nonneg_left (by norm_num) (Nat.cast_nonneg n))
    have := (abs_le.1 hhalf).1
    have : (n : ℚ) ≤ 2 * m := by linarith
    exact_mod_cast this
  have hsmall : n < 2 ^ 51 := by
    rcases le_total 0 e with he | he
    · rw [show (-e).toNat = 0 by omega] at hn
      omega
    · rw [show e.toNat = 0 by omega] at hm
      have := Nat.mul_le_mul hj hrlt.le
      omega
  have hlt : |((m - n : ℤ) : ℚ)| < 1 := by
    push_cast
    calc |(m : ℚ) - n| ≤ n * 2 ^ (-51 : ℤ) := hdiff
      _ < 2 ^ 51 * 2 ^ (-51 : ℤ) :=
          mul_lt_mul_of_pos_right (by exact_mod_cast hsmall) (two_zpow_pos _)
      _ = 1 := by norm_num
  have hzero : (m - n : ℤ) = 0 :=
    Int.abs_lt_one_iff.1 (by exact_mod_cast hlt)
  obtain rfl : m = n := by omega
  exact mul_right_cancel₀ hc.ne' (hgrid.trans hquotient.symm)

/-- A quotient that is a scaled natural has no more digits than its
numerator: the odd part of the denominator divides it. -/
theorem exists_short_quotient {t r j : ℕ} {e : ℤ} (hr : 0 < r)
    (h : (j * 2 ^ e : ℚ) = t / r) :
    ∃ m a : ℕ, m ≤ t ∧ 2 ^ a ≤ r ∧ (t / r : ℚ) = m * 2 ^ (-a : ℤ) := by
  obtain ⟨c, -, hgrid, hquotient⟩ := grid_over_denominator j t hr e
  have hnat : j * r * 2 ^ e.toNat = t * 2 ^ (-e).toNat := by
    rw [h] at hgrid
    exact_mod_cast hgrid.symm.trans hquotient
  obtain ⟨a, q, hq, rfl⟩ := Nat.exists_eq_two_pow_mul_odd hr.ne'
  have hdvd : q ∣ t * 2 ^ (-e).toNat :=
    ⟨j * 2 ^ a * 2 ^ e.toNat, by rw [← hnat]; ring⟩
  obtain ⟨m, rfl⟩ :=
    (hq.coprime_two_right.pow_right _).dvd_of_dvd_mul_right hdvd
  have hq0 : 0 < q := hq.pos
  refine ⟨m, a, Nat.le_mul_of_pos_left m hq0, Nat.le_mul_of_pos_right _ hq0, ?_⟩
  rw [zpow_neg, zpow_natCast]
  push_cast
  field_simp

/-- A number that is off from a quotient of integers below `2 ^ 16` by at
most one part in `2 ^ 51` is rounded as the quotient is. -/
theorem nearest_eq_of_near_ratio {t r : ℕ} (hr : 0 < r) (ht : 0 < t)
    (hrlt : r < 2 ^ 16) (htlt : t < 2 ^ 16) {y : ℚ}
    (h : |y - t / r| ≤ t / r * 2 ^ (-51 : ℤ)) :
    Format.binary32.nearest y = Format.binary32.nearest (t / r) := by
  have hx : (0 : ℚ) < t / r := by positivity
  by_cases hgrid : ∃ (j : ℕ) (e : ℤ), (j * 2 ^ e : ℚ) = t / r
  · obtain ⟨j, e, hje⟩ := hgrid
    obtain ⟨m, a, hm, ha, hshort⟩ := exists_short_quotient hr hje
    have hm0 : (m : ℤ) ≠ 0 := by
      rintro h0
      rw [Int.natCast_eq_zero.1 h0, Nat.cast_zero, zero_mul] at hshort
      exact hx.ne' hshort
    have hmlt : |(m : ℤ)| < 2 ^ 16 := by rw [Nat.abs_cast]; omega
    have ha16 : a < 16 :=
      (Nat.pow_lt_pow_iff_right Nat.one_lt_two).1 (ha.trans_lt hrlt)
    have hnear {z : ℚ} (hz : |z - t / r| ≤ t / r * 2 ^ (-51 : ℤ)) :
        Format.binary32.nearest z = t / r :=
      nearest_eq_of_near_short (by rw [hshort, Int.cast_natCast]) hm0 hmlt
        (show -100 ≤ -(a : ℤ) by omega) (by rwa [abs_of_pos hx])
    rw [hnear h, hnear (by simp; positivity)]
  · have hy : 0 < y := by
      have hhalf := h.trans (mul_le_mul_of_nonneg_left
        (show (2 : ℚ) ^ (-51 : ℤ) ≤ 1 / 2 by norm_num) hx.le)
      have := (abs_le.1 hhalf).1
      linarith
    have hside {j : ℕ} (e : ℤ) (hj : j ≤ 2 ^ 25) :
        ((j * 2 ^ e : ℚ) < t / r ∧ (j * 2 ^ e : ℚ) < y) ∨
          (t / r < (j * 2 ^ e : ℚ) ∧ y < (j * 2 ^ e : ℚ)) := by
      have hfar := mt (grid_eq_of_near_quotient hr htlt hrlt hj)
        fun heq => hgrid ⟨j, e, heq⟩
      obtain ⟨hlo, hhi⟩ := abs_le.1 h
      generalize (t / r : ℚ) * 2 ^ (-51 : ℤ) = δ at *
      rcases lt_abs.1 (not_le.1 hfar) with hgt | hlt
      · exact .inr ⟨by linarith [abs_nonneg (y - t / r)], by linarith⟩
      · exact .inl ⟨by linarith [abs_nonneg (y - t / r)], by linarith⟩
    refine Format.nearest_eq_of_grid hy hx (fun j e hj => ?_) fun j e hj => ?_
    · rcases hside e hj with ⟨h₁, h₂⟩ | ⟨h₁, h₂⟩
      · exact iff_of_true h₂.le h₁.le
      · exact iff_of_false h₂.not_ge h₁.not_ge
    · rcases hside e hj with ⟨h₁, h₂⟩ | ⟨h₁, h₂⟩
      · exact iff_of_false h₂.not_ge h₁.not_ge
      · exact iff_of_true h₂.le h₁.le

theorem abs_quotient (r t : ℤ) :
    |(t / r : ℚ)| = t.natAbs / r.natAbs := by
  rw [abs_div, Nat.cast_natAbs, Nat.cast_natAbs, Int.cast_abs, Int.cast_abs]

/-- The same with signs. -/
theorem nearest_eq_of_near_quotient {r t : ℤ} (hr0 : r ≠ 0)
    (hr : r.natAbs < 2 ^ 16) (ht : t.natAbs < 2 ^ 16) {y : ℚ}
    (h : |y - t / r| ≤ |(t / r : ℚ)| * 2 ^ (-51 : ℤ)) :
    Format.binary32.nearest y = Format.binary32.nearest (t / r) := by
  rcases eq_or_ne t 0 with rfl | ht0
  · have hy : y = 0 := by simpa using h
    rw [hy, Int.cast_zero, zero_div]
  have hratio {z : ℚ} := nearest_eq_of_near_ratio (y := z)
    (Int.natAbs_pos.2 hr0) (Int.natAbs_pos.2 ht0) hr ht
  rw [← abs_quotient] at hratio
  generalize (t / r : ℚ) = x at *
  rcases abs_choice x with hx | hx <;> rw [hx] at h hratio
  · exact hratio h
  · have hneg := hratio (z := -y) (by rwa [neg_sub_neg, abs_sub_comm])
    rwa [Format.nearest_neg, Format.nearest_neg, neg_inj] at hneg

-- ========================================================= the four roundings

/-- A product with a rounded reciprocal, rounded, is off from the quotient by
at most one part in `2 ^ 51`. -/
theorem product_reciprocal_near {t i p z : ℚ}
    (hp : |p - i| ≤ |i| * 2 ^ (-53 : ℤ))
    (hz : |z - t * p| ≤ |t * p| * 2 ^ (-53 : ℤ)) :
    |z - t * i| ≤ |t * i| * 2 ^ (-51 : ℤ) := by
  have hε : (2 : ℚ) ^ (-51 : ℤ) = 4 * 2 ^ (-53 : ℤ) := by norm_num
  have hε0 := two_zpow_pos (-53)
  have hε1 : (2 : ℚ) ^ (-53 : ℤ) ≤ 1 := by norm_num
  rw [hε]
  generalize (2 : ℚ) ^ (-53 : ℤ) = ε at *
  have hdouble : |p| ≤ 2 * |i| := by
    have h₁ := abs_sub_abs_le_abs_sub p i
    have h₂ := mul_le_mul_of_nonneg_left hε1 (abs_nonneg i)
    linarith
  have hproduct : |t * p| ≤ 2 * |t * i| := by
    rw [abs_mul, abs_mul]
    linarith [mul_le_mul_of_nonneg_left hdouble (abs_nonneg t)]
  calc |z - t * i| ≤ |z - t * p| + |t * p - t * i| := abs_sub_le ..
    _ ≤ |t * p| * ε + |t * i| * ε := by
        rw [← mul_sub, abs_mul t (p - i), abs_mul t i, mul_assoc |t|]
        exact add_le_add hz (mul_le_mul_of_nonneg_left hp (abs_nonneg t))
    _ ≤ |t * i| * (4 * ε) := by
        have := mul_le_mul_of_nonneg_right hproduct hε0.le
        have := mul_nonneg (abs_nonneg (t * i)) hε0.le
        linarith

theorem abs_le_two_pow {i : ℤ} (hi : i.natAbs < 2 ^ 16) {p : ℕ}
    (hp : 16 ≤ p) : |i| ≤ 2 ^ p := by
  have hpow : (2 : ℤ) ^ 16 ≤ 2 ^ p := pow_le_pow_right₀ (by decide) hp
  rw [Int.abs_eq_natAbs]
  omega

theorem gainGuard_canonical : Format.binary32.Canonical 10633824 (-123) := by
  decide

theorem gainGuard_eq :
    gainGuard = .finite false 10633824 (-123) gainGuard_canonical := by
  decide +kernel

/-- The guard is greater than zero and far below the last place of one. -/
theorem gainGuard_denotes :
    ∃ γ : ℚ, gainGuard.Denotes γ ∧ 0 < γ ∧ γ ≤ 2 ^ (-51 : ℤ) := by
  refine ⟨_, gainGuard_eq ▸ denotes_finite .., ?_⟩
  rw [value_false]
  norm_num

/-- Beside an integer of at most sixteen bits the guard does not count. -/
theorem guarded_denotes {r : ℤ} (hr0 : r ≠ 0) (hr : r.natAbs < 2 ^ 16) :
    (.ofInt r + gainGuard : Binary32).Denotes r := by
  obtain ⟨γ, hγ, h0, hle⟩ := gainGuard_denotes
  have hlt : |r| < 2 ^ 16 := by rw [Int.abs_eq_natAbs]; omega
  have hone : (1 : ℚ) ≤ |(r : ℚ)| := by exact_mod_cast Int.one_le_abs hr0
  have hr' : (ofInt r : Binary32).Denotes r :=
    ofInt_denotes_self (hlt.le.trans (by decide)) (by decide) (by decide)
  have hlimit : |r + γ| ≤ Format.binary32.limit := by
    have hbig := Format.two_zpow_le_limit (f := .binary32) (k := 17) (by decide)
    have hlt' : |(r : ℚ)| < 2 ^ 16 := by exact_mod_cast hlt
    refine (abs_add_le _ _).trans (le_trans ?_ hbig)
    rw [abs_of_pos h0]
    norm_num at hle hlt' ⊢
    linarith
  have hnear : |r + γ - r| ≤ |(r : ℚ)| * 2 ^ (-51 : ℤ) := by
    rw [add_sub_cancel_left, abs_of_pos h0]
    exact hle.trans (le_mul_of_one_le_left (two_zpow_pos _).le hone)
  have hsum := hr'.add hγ hlimit
  rwa [nearest_eq_of_near_short (e := 0) (by simp) hr0 hlt (by decide)
    hnear] at hsum

/-- The quotient of the formula, in front of the clamp. -/
def formulaQuotient (reference distorted : ℤ) : Binary32 :=
  (.ofInt distorted * (.ofNat 1
    / (.ofInt reference + gainGuard : Binary32).convert) : Binary64).convert

/-- A quotient that is not zero is not small. -/
theorem two_zpow_le_quotient {r t : ℤ} (ht0 : t ≠ 0) (hr0 : r ≠ 0)
    (hr : r.natAbs < 2 ^ 16) : 2 ^ (-16 : ℤ) ≤ |(t / r : ℚ)| := by
  have hone : (1 : ℚ) ≤ |(t : ℚ)| := by exact_mod_cast Int.one_le_abs ht0
  have hpos : 0 < |(r : ℚ)| := abs_pos.2 (Int.cast_ne_zero.2 hr0)
  have hle : |(r : ℚ)| ≤ 2 ^ 16 := by
    exact_mod_cast abs_le_two_pow hr le_rfl
  rw [abs_div, le_div_iff₀ hpos, zpow_neg, zpow_ofNat,
    inv_mul_le_iff₀ (by positivity)]
  linarith

/-- Between which powers a reciprocal lies. -/
theorem reciprocal_bounds {r : ℤ} (hr0 : r ≠ 0) (hr : r.natAbs < 2 ^ 16) :
    2 ^ (-16 : ℤ) ≤ |(1 / r : ℚ)| ∧ |(1 / r : ℚ)| ≤ 1 := by
  have hone : (1 : ℚ) ≤ |(r : ℚ)| := by exact_mod_cast Int.one_le_abs hr0
  have hlow := two_zpow_le_quotient one_ne_zero hr0 hr
  rw [Int.cast_one] at hlow
  refine ⟨hlow, ?_⟩
  rw [abs_div, abs_one]
  exact (div_le_one (one_pos.trans_le hone)).2 hone

/-- The reciprocal of a reference that is not zero is rounded once. -/
theorem reciprocal_denotes {r : ℤ} (hr0 : r ≠ 0) (hr : r.natAbs < 2 ^ 16) :
    (.ofNat 1 / (.ofInt r + gainGuard : Binary32).convert : Binary64).Denotes
      (Format.binary64.nearest (1 / r)) := by
  have hr53 := abs_le_two_pow hr (show 16 ≤ 53 by decide)
  have hguarded := (guarded_denotes hr0 hr).convert (g := .binary64)
    (abs_le_limit_of_le_two_pow (by exact_mod_cast hr53) (by decide))
  rw [Format.nearest_of_holds (Format.holds_intCast hr53 (by decide))]
    at hguarded
  have hone : (ofNat 1 : Binary64).Denotes 1 :=
    ofNat_one_denotes (by decide) (by decide)
  refine hone.div hguarded (Int.cast_ne_zero.2 hr0) ?_
  refine (reciprocal_bounds hr0 hr).2.trans ?_
  exact Format.two_zpow_le_limit (f := .binary64) (k := 0) (by decide)

/-- The quotient of the formula is the quotient rounded once. -/
theorem formulaQuotient_denotes {r t : ℤ} (hr0 : r ≠ 0)
    (hr : r.natAbs < 2 ^ 16) (ht : t.natAbs < 2 ^ 16) :
    (formulaQuotient r t).Denotes (Format.binary32.nearest (t / r)) := by
  have hreciprocal := reciprocal_denotes hr0 hr
  obtain ⟨hlow, hhigh⟩ := reciprocal_bounds hr0 hr
  have hp := Format.nearest_relative_error (f := .binary64) fun _ =>
    (two_zpow_le (show (-1022 : ℤ) ≤ -16 by decide)).trans hlow
  have hplow := Format.le_abs_nearest_of_holds (f := .binary64)
    (Format.holds_two_zpow (by decide)) hlow
  have hphigh := Format.abs_nearest_le_of_holds (f := .binary64)
    (Format.holds_two_zpow (k := 0) (by decide)) hhigh
  generalize Format.binary64.nearest (1 / r) = p at *
  -- the product
  have hz0 : t * p ≠ 0 → 2 ^ (-16 : ℤ) ≤ |t * p| := by
    intro hne
    have hone : (1 : ℚ) ≤ |(t : ℚ)| := by
      have ht0 : t ≠ 0 := by rintro rfl; simp at hne
      exact_mod_cast Int.one_le_abs ht0
    rw [abs_mul]
    exact hplow.trans (le_mul_of_one_le_left (abs_nonneg p) hone)
  have hzhigh : |t * p| ≤ 2 ^ (16 : ℤ) := by
    have hle : |(t : ℚ)| ≤ 2 ^ 16 := by
      exact_mod_cast abs_le_two_pow ht le_rfl
    rw [abs_mul]
    exact (mul_le_mul hle hphigh (abs_nonneg p) (by positivity)).trans
      (by norm_num)
  have hdistorted : (ofInt t : Binary64).Denotes t :=
    ofInt_denotes_self (abs_le_two_pow ht (by decide)) (by decide) (by decide)
  have hproduct := hdistorted.mul hreciprocal
    (hzhigh.trans (Format.two_zpow_le_limit (by decide)))
  have hz := Format.nearest_relative_error (f := .binary64) fun hne =>
    (two_zpow_le (show (-1022 : ℤ) ≤ -16 by decide)).trans (hz0 hne)
  -- what is narrowed is close to the quotient
  have hzle := Format.abs_nearest_le_of_holds (f := .binary64)
    (Format.holds_two_zpow (by decide)) hzhigh
  have hnarrowed := hproduct.convert (g := .binary32)
    (hzle.trans (Format.two_zpow_le_limit (by decide)))
  have hnear := product_reciprocal_near hp hz
  rw [mul_one_div] at hnear
  rwa [nearest_eq_of_near_quotient hr0 hr ht hnear] at hnarrowed

-- ======================================================================= zeros

theorem guardReciprocal_canonical :
    Format.binary64.Canonical 7105427335069146 47 := by
  decide

theorem guardReciprocal_eq :
    (.ofNat 1 / (.ofInt 0 + gainGuard : Binary32).convert : Binary64)
      = .finite false 7105427335069146 47 guardReciprocal_canonical := by
  decide +kernel

/-- Beside a zero reference the reciprocal of the guard takes every quotient
past one. -/
theorem formulaQuotient_zero {t : ℤ} (ht : t.natAbs < 2 ^ 16) : ∃ q,
    (formulaQuotient 0 t).Denotes q ∧ (0 < t → 1 ≤ q) ∧ (t < 0 → q < 0) := by
  obtain ⟨c, hc, hlow, hhigh⟩ : ∃ c : ℚ,
      (.ofNat 1 / (.ofInt 0 + gainGuard : Binary32).convert : Binary64).Denotes c
        ∧ 1 ≤ c ∧ c ≤ 2 ^ (100 : ℤ) := by
    refine ⟨_, guardReciprocal_eq ▸ denotes_finite .., ?_⟩
    rw [value_false]
    norm_num
  have hlimit : |t * c| ≤ 2 ^ (116 : ℤ) := by
    have hle : |(t : ℚ)| ≤ 2 ^ 16 := by
      exact_mod_cast abs_le_two_pow ht le_rfl
    rw [abs_mul, abs_of_pos (one_pos.trans_le hlow)]
    exact (mul_le_mul hle hhigh (by linarith) (by positivity)).trans
      (by norm_num)
  have hdistorted : (ofInt t : Binary64).Denotes t :=
    ofInt_denotes_self (abs_le_two_pow ht (by decide)) (by decide) (by decide)
  have hproduct := hdistorted.mul hc
    (hlimit.trans (Format.two_zpow_le_limit (by decide)))
  have hle := Format.abs_nearest_le_of_holds (f := .binary64)
    (Format.holds_two_zpow (by decide)) hlimit
  have hone {f : Format} (h : f.minExponent ≤ 0) : f.Holds 1 := by
    simpa using Format.holds_two_zpow h
  refine ⟨_, hproduct.convert (g := .binary32)
    (hle.trans (Format.two_zpow_le_limit (by decide))), fun hpos => ?_,
    fun hneg => ?_⟩
  · have : (1 : ℚ) ≤ t := by exact_mod_cast hpos
    refine Format.le_nearest_of_holds (hone (by decide))
      (Format.le_nearest_of_holds (hone (by decide)) ?_)
    nlinarith
  · have : (t : ℚ) ≤ -1 := by exact_mod_cast Int.le_sub_one_of_lt hneg
    refine lt_of_le_of_lt (b := -1) ?_ (by norm_num)
    refine Format.nearest_le_of_holds (hone (by decide)).neg
      (Format.nearest_le_of_holds (hone (by decide)).neg ?_)
    nlinarith

/-- A zero keeps the sign of the reference. -/
theorem formulaQuotient_of_zero {r : ℤ} (hr0 : r ≠ 0)
    (hr : r.natAbs < 2 ^ 16) : formulaQuotient r 0 = .zero (r < 0) := by
  have hholds := Format.holds_two_zpow (f := .binary64) (k := -16) (by decide)
  have hlow := (reciprocal_bounds hr0 hr).1
  have hne := Format.nearest_ne_zero hholds (two_zpow_pos _) hlow
  have hsign := Format.nearest_neg_iff hholds (two_zpow_pos _) hlow
  rw [one_div] at hne hsign
  rw [inv_lt_zero, Int.cast_lt_zero] at hsign
  obtain ⟨s, m, e, j, heq, hval⟩ := (reciprocal_denotes hr0 hr).exists_finite
  rw [one_div] at hval
  rw [hval] at hne hsign
  have hm : m ≠ 0 := mt value_eq_zero_iff.2 hne
  have hs : s = decide (r < 0) := by
    rw [Bool.eq_iff_iff, decide_eq_true_iff, ← hsign,
      value_neg_iff (Nat.pos_of_ne_zero hm)]
  unfold formulaQuotient
  rw [heq, hs]
  show (roundScaled _ (0 * m) _ : Binary64).convert = _
  rw [Nat.zero_mul, Bool.xor_comm]
  cases decide (r < 0) <;> rfl

-- ==================================================================== the gain

theorem quotient_neg_iff {r t : ℤ} (ht0 : t ≠ 0) (hr0 : r ≠ 0) :
    (t / r : ℚ) < 0 ↔ (t < 0) ≠ (r < 0) := by
  rw [div_neg_iff, Int.cast_pos, Int.cast_pos, Int.cast_lt_zero,
    Int.cast_lt_zero, ne_eq, eq_iff_iff]
  omega

/-- A quotient of one sign is that of the magnitudes. -/
theorem formulaQuotient_eq_round {r t : ℤ} (ht0 : t ≠ 0) (hr0 : r ≠ 0)
    (hr : r.natAbs < 2 ^ 16) (ht : t.natAbs < 2 ^ 16)
    (hnn : 0 ≤ (t / r : ℚ)) (h1 : (t / r : ℚ) ≤ 1) :
    formulaQuotient r t = .round false t.natAbs r.natAbs := by
  have hq := formulaQuotient_denotes hr0 hr ht
  have hround := round_denotes (f := .binary32) (x := t / r) false t.natAbs
    (Int.natAbs_pos.2 hr0)
    (by rw [← abs_quotient, abs_of_nonneg hnn]; simp)
    (by
      rw [abs_of_nonneg hnn]
      exact h1.trans (Format.two_zpow_le_limit (k := 0) (by decide)))
  exact hq.eq_of_ne_zero hround (Format.nearest_ne_zero
    (Format.holds_two_zpow (by decide)) (two_zpow_pos _)
    (two_zpow_le_quotient ht0 hr0 hr))

/-- A sample is an integer of sixteen bits. -/
theorem natAbs_sample_lt (x : Int16) : x.toInt.natAbs < 2 ^ 16 := by
  have := x.le_toInt
  have := x.toInt_lt
  omega

/-- The gain of two samples is the gain of two integers. -/
theorem sampleGain_eq (reference distorted : Int16) :
    sampleGain reference distorted
      = detailGain reference.toInt distorted.toInt := by
  have hr := natAbs_sample_lt reference
  have ht := natAbs_sample_lt distorted
  have hone : (ofNat 1 : Binary32).Denotes 1 :=
    ofNat_one_denotes (by decide) (by decide)
  have hzero : (0 : Binary32).Denotes 0 := zero_denotes false
  show _ = (formulaQuotient _ _).clamp 0 (.ofNat 1)
  unfold sampleGain
  generalize reference.toInt = r at *
  generalize distorted.toInt = t at *
  simp only
  by_cases hr0 : r = 0
  · subst hr0
    rw [if_pos rfl]
    rcases lt_trichotomy t 0 with hneg | rfl | hpos
    · obtain ⟨q, hq, -, hlt⟩ := formulaQuotient_zero ht
      rw [if_neg hneg.not_gt, hq.clamp_low hzero (hlt hneg)]
    · decide +kernel
    · obtain ⟨q, hq, hle, -⟩ := formulaQuotient_zero ht
      rw [if_pos hpos, hq.clamp_high hzero hone zero_le_one (hle hpos)
        one_ne_zero]
  rw [if_neg hr0]
  by_cases ht0 : t = 0
  · rw [if_pos ht0, ht0, formulaQuotient_of_zero hr0 hr,
      (zero_denotes _).clamp_between hzero hone le_rfl zero_le_one]
  rw [if_neg ht0]
  have hq := formulaQuotient_denotes hr0 hr ht
  have hsign := quotient_neg_iff ht0 hr0
  by_cases hopposite : (t < 0) ≠ (r < 0)
  · have hneg := (Format.nearest_neg_iff (f := .binary32)
      (Format.holds_two_zpow (by decide)) (two_zpow_pos _)
      (two_zpow_le_quotient ht0 hr0 hr)).2 (hsign.2 hopposite)
    rw [if_pos hopposite, hq.clamp_low hzero hneg]
  rw [if_neg hopposite]
  have hnn := not_lt.1 (mt hsign.1 hopposite)
  have hratio := abs_quotient r t
  rw [abs_of_nonneg hnn] at hratio
  have hrpos : (0 : ℚ) < r.natAbs := Nat.cast_pos.2 (Int.natAbs_pos.2 hr0)
  by_cases hle : r.natAbs ≤ t.natAbs
  · have hge : (1 : ℚ) ≤ t / r := by
      rw [hratio, one_le_div hrpos]
      exact_mod_cast hle
    rw [if_pos hle, hq.clamp_high hzero hone zero_le_one
      (Format.le_nearest_of_holds hone.holds hge) one_ne_zero]
  · have hlt : (t / r : ℚ) ≤ 1 := by
      rw [hratio, div_le_one hrpos]
      exact_mod_cast (not_le.1 hle).le
    rw [if_neg hle, hq.clamp_between hzero hone (Format.nearest_nonneg hnn)
      (Format.nearest_le_of_holds hone.holds hlt)]
    exact (formulaQuotient_eq_round ht0 hr0 hr ht hnn hlt).symm

end AdditiveDetail

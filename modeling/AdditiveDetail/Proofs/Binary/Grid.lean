/-
What rounding does not see.

# The grid

A number is rounded up to `W` units of its last place because it is not
below the middle under `W`, and the middle has one digit more than the
format keeps. So rounding sees of a number only where it stands to the
numbers of that many digits, the grid. What stands above every number of
the grid that `t` stands above is not rounded below `t`
(`nearest_le_nearest_of_grid`), and numbers that stand to the grid alike
are rounded alike (`nearest_eq_of_grid`).

# Close to a number of the format

On the grid itself a number and its neighbours do not stand alike. But a
number that is held is what everything closer than half a place is
rounded to (`nearest_eq_of_near`).
-/
import AdditiveDetail.Proofs.Binary.RationalRounding

namespace AdditiveDetail

namespace Format

variable {f : Format}

-- ================================================================== the grid

/-- The middle under the multiple that a number is rounded to is not above
the number. -/
theorem middle_le (t : ℚ) :
    ((nearestWhole (t / 2 ^ f.placeOf t) : ℚ) - 1 / 2) * 2 ^ f.placeOf t ≤ t := by
  have hp := two_zpow_pos (f.placeOf t)
  rw [← le_div_iff₀ hp]
  have := (abs_le.1 (nearestWhole_error (t / 2 ^ f.placeOf t))).2
  linarith

/-- A number that is above the middle under a multiple of its last place is
rounded to that multiple or above it. -/
theorem le_nearest_of_middle_lt {u : ℚ} {w : ℤ}
    (h : ((w : ℚ) - 1 / 2) * 2 ^ f.placeOf u < u) :
    w * 2 ^ f.placeOf u ≤ f.nearest u := by
  have hp := two_zpow_pos (f.placeOf u)
  rw [← lt_div_iff₀ hp] at h
  have herror := (abs_le.1 (nearestWhole_error (u / 2 ^ f.placeOf u))).1
  have hlt : (w : ℚ) - 1 < nearestWhole (u / 2 ^ f.placeOf u) := by linarith
  have hle : w ≤ nearestWhole (u / 2 ^ f.placeOf u) := by
    have : w - 1 < nearestWhole (u / 2 ^ f.placeOf u) := by exact_mod_cast hlt
    omega
  exact mul_le_mul_of_nonneg_right (Int.cast_le.2 hle) hp.le

/-- Of two numbers with different last places the one with the higher place
reaches a power of two that the other one does not reach. -/
theorem exists_power_between {t u : ℚ} (ht : 0 < t) (hu : 0 < u)
    (hplace : f.placeOf u < f.placeOf t) : ∃ k : ℤ, 2 ^ k ≤ t ∧ u < 2 ^ k := by
  refine ⟨Int.log 2 t, Int.zpow_log_le_self one_lt_two ht, ?_⟩
  have hlog : Int.log 2 u < Int.log 2 t := by
    unfold placeOf lastPlace at hplace
    rw [abs_of_pos ht, abs_of_pos hu] at hplace
    omega
  exact_mod_cast (Int.lt_zpow_iff_log_lt one_lt_two hu).2 hlog

/-- The middle under a multiple of the last place has one digit more than
the format keeps. -/
theorem exists_middle {w : ℕ} (hw : 0 < w) (hle : w ≤ 2 ^ f.precision)
    (place : ℤ) : ∃ j : ℕ, j ≤ 2 ^ (f.precision + 1) ∧
      ((w : ℚ) - 1 / 2) * 2 ^ place = j * 2 ^ (place - 1) := by
  refine ⟨2 * w - 1, by rw [pow_succ]; omega, ?_⟩
  rw [Nat.cast_sub (by omega), zpow_sub_one₀ two_ne_zero]
  push_cast
  ring

/-- What stands to every number of one digit more than the format keeps as a
number not below `t` would is not rounded below `t`. -/
theorem nearest_le_nearest_of_grid {t u : ℚ} (ht : 0 < t) (hu : 0 < u)
    (hle : ∀ (j : ℕ) (e : ℤ), j ≤ 2 ^ (f.precision + 1) →
      (j : ℚ) * 2 ^ e ≤ t → (j : ℚ) * 2 ^ e ≤ u)
    (hge : ∀ (j : ℕ) (e : ℤ), j ≤ 2 ^ (f.precision + 1) →
      u ≤ (j : ℚ) * 2 ^ e → t ≤ (j : ℚ) * 2 ^ e) :
    f.nearest t ≤ f.nearest u := by
  rcases le_or_gt t u with h | hlt
  · exact nearest_mono h
  -- the power of two between different places would be on the grid
  have hplace : f.placeOf u = f.placeOf t := by
    by_contra hne
    obtain ⟨k, hkt, hku⟩ := exists_power_between ht hu
      (lt_of_le_of_ne (placeOf_mono hu hlt.le) hne)
    have := hle 1 k Nat.one_le_two_pow (by simpa using hkt)
    rw [Nat.cast_one, one_mul] at this
    exact absurd hku (not_lt.2 this)
  obtain ⟨w, hw⟩ := Int.eq_ofNat_of_zero_le (nearestWhole_nonneg
    (div_nonneg ht.le (two_zpow_pos (f.placeOf t)).le))
  have hnearest : f.nearest t = (w : ℤ) * 2 ^ f.placeOf u := by
    rw [hplace, ← hw]
    rfl
  rw [hnearest]
  rcases Nat.eq_zero_or_pos w with rfl | hpos
  · rw [Nat.cast_zero, Int.cast_zero, zero_mul]
    exact nearest_nonneg hu.le
  have hfits : w ≤ 2 ^ f.precision := by
    have := le_of_abs_le (abs_nearestWhole_le (f := f) t)
    rw [hw] at this
    exact_mod_cast this
  obtain ⟨j, hdigits, hgrid⟩ := exists_middle hpos hfits (f.placeOf u)
  have hmiddle := middle_le (f := f) t
  rw [hw, Int.cast_natCast, ← hplace, hgrid] at hmiddle
  apply le_nearest_of_middle_lt
  rw [Int.cast_natCast, hgrid]
  refine lt_of_le_of_ne (hle j _ hdigits hmiddle) fun heq => ?_
  have := hge j _ hdigits heq.ge
  exact absurd hlt (not_lt.2 (this.trans heq.le))

/-- Numbers that stand alike to every number of one digit more than the
format keeps are rounded alike. -/
theorem nearest_eq_of_grid {t u : ℚ} (ht : 0 < t) (hu : 0 < u)
    (hle : ∀ (j : ℕ) (e : ℤ), j ≤ 2 ^ (f.precision + 1) →
      ((j : ℚ) * 2 ^ e ≤ t ↔ (j : ℚ) * 2 ^ e ≤ u))
    (hge : ∀ (j : ℕ) (e : ℤ), j ≤ 2 ^ (f.precision + 1) →
      (t ≤ (j : ℚ) * 2 ^ e ↔ u ≤ (j : ℚ) * 2 ^ e)) :
    f.nearest t = f.nearest u :=
  le_antisymm
    (nearest_le_nearest_of_grid ht hu (fun j e hj => (hle j e hj).1)
      fun j e hj => (hge j e hj).2)
    (nearest_le_nearest_of_grid hu ht (fun j e hj => (hle j e hj).2)
      fun j e hj => (hge j e hj).1)

-- ============================================== close to a number of the format

/-- A multiple of the last place that is closer than half a place. -/
theorem nearest_eq_of_near {x y : ℚ} {m e : ℤ} (hx : x = m * 2 ^ e)
    (he : f.placeOf y ≤ e) (h : |y - x| < 2 ^ f.placeOf y / 2) :
    f.nearest y = x := by
  have hp := two_zpow_pos (f.placeOf y)
  obtain ⟨j, hj⟩ := two_zpow_eq_multiple he
  have hmultiple : x = (m * 2 ^ j : ℤ) * 2 ^ f.placeOf y := by
    rw [hx, hj, Int.cast_mul, mul_assoc]
  have hwhole : nearestWhole (y / 2 ^ f.placeOf y) = m * 2 ^ j := by
    apply nearestWhole_eq
    rw [hmultiple] at h
    rw [← mul_lt_mul_iff_left₀ hp, ← abs_of_pos hp, ← abs_mul, abs_of_pos hp,
      sub_mul, div_mul_cancel₀ _ hp.ne']
    linarith
  unfold nearest
  rw [hwhole, ← hmultiple]

/-- A number that is not too small is off by at most one part in
`2 ^ precision`. -/
theorem nearest_relative_error {x : ℚ}
    (h : x ≠ 0 → 2 ^ (f.minExponent + f.precision - 1) ≤ |x|) :
    |f.nearest x - x| ≤ |x| * 2 ^ (-f.precision : ℤ) := by
  rcases eq_or_ne x 0 with rfl | hx
  · simp
  have hlog : (2 : ℚ) ^ Int.log 2 |x| ≤ |x| := by
    exact_mod_cast Int.zpow_log_le_self one_lt_two (abs_pos.2 hx)
  have hlog' : |x| < 2 ^ (Int.log 2 |x| + 1) := by
    exact_mod_cast Int.lt_zpow_succ_log_self one_lt_two |x|
  have hnormal := lt_of_two_zpow_lt ((h hx).trans_lt hlog')
  have hplace : f.placeOf x = Int.log 2 |x| + 1 - f.precision := by
    unfold placeOf lastPlace
    omega
  have hhalf : (2 : ℚ) ^ f.placeOf x / 2
      = 2 ^ Int.log 2 |x| * 2 ^ (-f.precision : ℤ) := by
    rw [hplace, div_eq_mul_inv, ← zpow_neg_one, ← two_zpow_add,
      ← two_zpow_add]
    congr 1
    omega
  refine (nearest_error x).trans ?_
  rw [hhalf]
  exact mul_le_mul_of_nonneg_right hlog (two_zpow_pos _).le

end Format

end AdditiveDetail

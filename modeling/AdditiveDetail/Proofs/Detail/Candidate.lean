/-
The candidate of a coefficient, in numbers.

The gain of two samples is zero where their signs differ and one where the
distorted sample is the greater one, so that the reference coefficient times
the gain is an integer (`candidate_whole`). Of a coefficient that is
attenuated the gain is a rounded quotient. Its error, taken times a sample,
stays far below a half, and rounding the product does not take it past a
half, which single precision holds beside every sample (`gain_near`).
-/
import AdditiveDetail.Proofs.Detail.Reach

namespace AdditiveDetail

open Binary

-- ============================================================= whole candidates

/-- Single precision holds a whole number of twenty-four bits. -/
theorem nearest_whole {n : ℤ} (hn : |n| ≤ 2 ^ 24) :
    |(n : ℚ)| ≤ Format.binary32.limit ∧ Format.binary32.nearest n = n :=
  ⟨abs_le_limit_of_le_two_pow (by exact_mod_cast hn) (by decide),
    Format.nearest_of_holds (Format.holds_intCast hn (by decide))⟩

/-- A gain that takes the reference coefficient to an integer. -/
theorem candidate_whole {gain : Binary32} {g : ℚ} {o : Int16} {n : ℤ}
    (hgain : gain.Denotes g) (h : g * o.toInt = n) (hn : |n| ≤ 2 ^ 24) :
    (gain * .ofInt o.toInt : Binary32).Denotes n := by
  obtain ⟨hlimit, hnearest⟩ := nearest_whole hn
  have hmul := hgain.mul (ofInt_sample_denotes o) (by rwa [h])
  rwa [h, hnearest] at hmul

/-- Against coefficients of other signs nothing is gained. -/
theorem sampleGain_opposite {o t : Int16} (h : o.toInt * t.toInt ≤ 0) :
    ∃ g, (sampleGain o t).Denotes g ∧ g * o.toInt = 0 := by
  unfold sampleGain
  generalize o.toInt = r at *
  generalize t.toInt = s at *
  simp only
  by_cases hr : r = 0
  · rw [if_pos hr, hr, Int.cast_zero]
    simp only [mul_zero, and_true]
    split
    · exact ⟨1, ofNat_one_denotes (by decide) (by decide)⟩
    · exact ⟨_, zero_denotes false⟩
  rw [if_neg hr]
  by_cases hs : s = 0
  · rw [if_pos hs]
    exact ⟨0, zero_denotes _, zero_mul _⟩
  have hsigns : (s < 0) ≠ (r < 0) := by
    rw [ne_eq, eq_iff_iff]
    rcases mul_nonpos_iff.1 h with hrs | hrs <;> omega
  rw [if_neg hs, if_pos hsigns]
  exact ⟨0, zero_denotes false, zero_mul _⟩

/-- A coefficient of the same sign that is not attenuated has the gain
one. -/
theorem sampleGain_exceeding {o t : Int16} (hsign : 0 < o.toInt * t.toInt)
    (hle : |o.toInt| ≤ |t.toInt|) : (sampleGain o t).Denotes 1 := by
  rw [Int.abs_eq_natAbs, Int.abs_eq_natAbs] at hle
  unfold sampleGain
  generalize o.toInt = r at *
  generalize t.toInt = s at *
  have hsame : ¬(s < 0) ≠ (r < 0) := by
    rw [not_not, eq_iff_iff]
    rcases mul_pos_iff.1 hsign with hrs | hrs <;> omega
  rw [if_neg (left_ne_zero_of_mul hsign.ne'),
    if_neg (right_ne_zero_of_mul hsign.ne'), if_neg hsame,
    if_pos (by omega)]
  exact ofNat_one_denotes (by decide) (by decide)

-- =========================================================== rounded candidates

/-- Single precision holds a half beside every sample. -/
theorem holds_sample_half (n : ℤ) (hn : |n| ≤ 2 ^ 17) :
    Format.binary32.Holds (n / 2) := by
  have h := Format.holds_of_le (f := .binary32) (m := n) (e := -1)
    (hn.trans (by decide)) (by decide)
  rwa [zpow_neg_one, ← div_eq_mul_inv] at h

/-- What is within one half of a sample is rounded within one half of it. -/
theorem nearest_near {t : Int16} {q : ℚ} (h : |q - t.toInt| ≤ 1 / 2) :
    |Format.binary32.nearest q - t.toInt| ≤ 1 / 2 := by
  have ht := abs_le.1 (abs_sample_le t)
  obtain ⟨hlo, hhi⟩ := abs_le.1 h
  have hlow := Format.le_nearest_of_holds (x := q)
    (holds_sample_half (2 * t.toInt - 1) (abs_le.2 ⟨by omega, by omega⟩))
    (by push_cast; linarith)
  have hhigh := Format.nearest_le_of_holds (x := q)
    (holds_sample_half (2 * t.toInt + 1) (abs_le.2 ⟨by omega, by omega⟩))
    (by push_cast; linarith)
  push_cast at hlow hhigh
  exact abs_le.2 ⟨by linarith, by linarith⟩

/-- A ratio of two magnitudes, rounded, is off by less than a half when it is
taken times the greater of them. -/
theorem round_ratio_denotes {m n : ℕ} (hlt : m < n) (hn : n ≤ 2 ^ 15) :
    ∃ g, (Binary.round false m n : Binary32).Denotes g ∧ 0 ≤ g ∧ g ≤ 1 ∧
      |g * n - m| ≤ 1 / 2 := by
  have hpos : (0 : ℚ) < n := Nat.cast_pos.2 (by omega)
  obtain ⟨x, hx⟩ : ∃ x : ℚ, x = m / n := ⟨_, rfl⟩
  have h0 : 0 ≤ x := by rw [hx]; positivity
  have h1 : x < 2 ^ (0 : ℤ) := by
    rw [hx, zpow_zero, div_lt_one hpos]
    exact_mod_cast hlt
  have hlimit : |x| ≤ Format.binary32.limit := by
    rw [abs_of_nonneg h0]
    exact h1.le.trans (Format.two_zpow_le_limit (by decide))
  have hdenotes := round_denotes (f := .binary32) false m
    (show 0 < n by omega) (by simpa using hx) hlimit
  have hle := Format.nearest_le_of_holds (f := .binary32)
    (Format.holds_two_zpow (by decide)) h1.le
  refine ⟨_, hdenotes, Format.nearest_nonneg h0, by simpa using hle, ?_⟩
  have herror : |Format.binary32.nearest x - x| ≤ 2 ^ (-24 : ℤ) / 2 := by
    rcases h0.eq_or_lt with h | h
    · rw [← h, Format.nearest_zero, sub_zero, abs_zero]
      positivity
    · have hplace := Format.placeOf_le (f := .binary32) h.ne'
        (by rwa [abs_of_pos h]) (by decide)
      refine (Format.nearest_error x).trans ?_
      exact div_le_div_of_nonneg_right (two_zpow_le hplace) two_pos.le
  have hscaled : Format.binary32.nearest x * n - m
      = (Format.binary32.nearest x - x) * n := by
    rw [sub_mul, hx, div_mul_cancel₀ _ hpos.ne']
  rw [hscaled, abs_mul, Nat.abs_cast]
  calc |Format.binary32.nearest x - x| * n
      ≤ 2 ^ (-24 : ℤ) / 2 * 2 ^ 15 :=
        mul_le_mul herror (by exact_mod_cast hn) hpos.le (by positivity)
    _ ≤ 1 / 2 := by norm_num

/-- The gain of an attenuated coefficient. -/
theorem sampleGain_attenuated {o t : Int16} (hsign : 0 < o.toInt * t.toInt)
    (hlt : |t.toInt| < |o.toInt|) :
    ∃ g, (sampleGain o t).Denotes g ∧ 0 ≤ g ∧ g ≤ 1 ∧
      |g * o.toInt - t.toInt| ≤ 1 / 2 := by
  have ho := abs_le.1 (abs_sample_le o)
  rw [Int.abs_eq_natAbs, Int.abs_eq_natAbs] at hlt
  unfold sampleGain
  generalize o.toInt = r at *
  generalize t.toInt = s at *
  have hsigns := mul_pos_iff.1 hsign
  have hsame : ¬(s < 0) ≠ (r < 0) := by
    rw [not_not, eq_iff_iff]
    omega
  rw [if_neg (left_ne_zero_of_mul hsign.ne'),
    if_neg (right_ne_zero_of_mul hsign.ne'), if_neg hsame,
    if_neg (by omega)]
  obtain ⟨g, hg, h0, h1, hnear⟩ := round_ratio_denotes
    (show s.natAbs < r.natAbs by omega) (by omega)
  refine ⟨g, hg, h0, h1, ?_⟩
  rcases hsigns with ⟨hr, hs⟩ | ⟨hr, hs⟩
  · obtain ⟨m, rfl⟩ := Int.eq_ofNat_of_zero_le hs.le
    obtain ⟨n, rfl⟩ := Int.eq_ofNat_of_zero_le hr.le
    exact_mod_cast hnear
  · obtain ⟨m, rfl⟩ := Int.exists_eq_neg_ofNat hs.le
    obtain ⟨n, rfl⟩ := Int.exists_eq_neg_ofNat hr.le
    rw [Int.natAbs_neg, Int.natAbs_neg, Int.natAbs_natCast,
      Int.natAbs_natCast] at hnear
    push_cast
    rwa [mul_neg, neg_sub_neg, abs_sub_comm]

/-- The reference coefficient times the gain stands within one half of the
attenuated coefficient. -/
theorem gain_near {o t : Int16} (hsign : 0 < o.toInt * t.toInt)
    (hlt : |t.toInt| < |o.toInt|) :
    ∃ q, (sampleGain o t * .ofInt o.toInt : Binary32).Denotes q ∧
      |q - t.toInt| ≤ 1 / 2 := by
  obtain ⟨g, hg, h0, h1, hnear⟩ := sampleGain_attenuated hsign hlt
  refine ⟨_, hg.mul (ofInt_sample_denotes o) ?_, nearest_near hnear⟩
  have ho : |(o.toInt : ℚ)| ≤ 2 ^ (15 : ℤ) := by
    exact_mod_cast abs_sample_le o
  rw [abs_mul, abs_of_nonneg h0]
  exact (mul_le_of_le_one_left (abs_nonneg _) h1).trans
    (ho.trans (Format.two_zpow_le_limit (by decide)))

end AdditiveDetail

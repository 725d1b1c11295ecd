/-
Detail split against itself.

# The angle test

A vector is within the angle of itself, although both sides of the test
are rounded: they round the same square, and one of them has a factor of
at most one in front. Rounding keeps the order, so it cannot turn that
around (`withinAngle_self`). The candidates then are the coefficients
themselves, and a sample is held exactly in single precision.

# What follows

All detail is restored, nothing is added, and the threshold is zero. What
masking then leaves is the magnitude of the detail, and a cubic norm sees
no more of detail than that.
-/
import AdditiveDetail.Proofs.Binary.Denotation
import AdditiveDetail.Proofs.Detail.Contribution

namespace AdditiveDetail

open Binary

-- ============================================================ the angle test

theorem abs_sample_le (x : Int16) : |x.toInt| ≤ 2 ^ 15 := by
  have := x.toInt_lt
  have := x.le_toInt
  rw [abs_le]
  omega

/-- The factor of the test is at most one. -/
theorem cosSquaredLimit_denotes :
    ∃ c, cosSquaredLimit.Denotes c ∧ 0 ≤ c ∧ c ≤ 1 := by
  obtain ⟨q, hq⟩ : ∃ q : ℚ, q = 999695413509547865 / 10 ^ 18 := ⟨_, rfl⟩
  have h0 : 0 ≤ q := by rw [hq]; norm_num
  have h1 : q ≤ 2 ^ (0 : ℤ) := by rw [hq]; norm_num
  have hlimit : |q| ≤ Format.binary32.limit := by
    rw [abs_of_nonneg h0]
    exact h1.trans (Format.two_zpow_le_limit (by decide))
  have h := round_denotes (x := q) false 999695413509547865
    (show 0 < 10 ^ 18 by decide) (by rw [hq]; norm_num) hlimit
  refine ⟨_, h, Format.nearest_nonneg h0, ?_⟩
  simpa using Format.nearest_le_of_holds (f := .binary32)
    (Format.holds_two_zpow (by decide)) h1

/-- Numbers that are far below the overflow of single precision. -/
theorem abs_le_limit_of_le_square {q : ℚ} (h0 : 0 ≤ q) (h : q ≤ 2 ^ (62 : ℤ)) :
    |q| ≤ Format.binary32.limit := by
  rw [abs_of_nonneg h0]
  exact h.trans (Format.two_zpow_le_limit (by decide))

/-- The squared length of a vector. -/
theorem squares_denote (h v : Int16) :
    ∃ r, (ofInt (h.toInt * h.toInt + v.toInt * v.toInt) : Binary32).Denotes r ∧
      0 ≤ r ∧ r ≤ 2 ^ (31 : ℤ) := by
  have hh := abs_le.1 (abs_sample_le h)
  have hv := abs_le.1 (abs_sample_le v)
  obtain ⟨square, hsquare⟩ : ∃ x : ℤ, x = h.toInt * h.toInt + v.toInt * v.toInt :=
    ⟨_, rfl⟩
  have h0 : (0 : ℚ) ≤ square := by
    exact_mod_cast (show 0 ≤ square by nlinarith)
  have hle : (square : ℚ) ≤ 2 ^ (31 : ℤ) := by
    exact_mod_cast (show square ≤ 2 ^ 31 by nlinarith)
  rw [← hsquare]
  exact ⟨_, ofInt_denotes (abs_le_limit_of_le_square h0
    (hle.trans (two_zpow_le (by decide)))), Format.nearest_nonneg h0,
    Format.nearest_le_of_holds (Format.holds_two_zpow (by decide)) hle⟩

/-- The right side of the test: the factor taken times two squared lengths,
one after the other. -/
theorem weighted_squares_denote {x y : Binary32} {r t : ℚ} (hx : x.Denotes r)
    (hr0 : 0 ≤ r) (hr : r ≤ 2 ^ (31 : ℤ)) (hy : y.Denotes t) (ht0 : 0 ≤ t)
    (ht : t ≤ 2 ^ (31 : ℤ)) :
    ∃ w, 0 ≤ w ∧ w ≤ r ∧
      (cosSquaredLimit * x * y).Denotes (Format.binary32.nearest (w * t)) := by
  obtain ⟨c, hc, hc0, hc1⟩ := cosSquaredLimit_denotes
  have hcr0 : 0 ≤ c * r := mul_nonneg hc0 hr0
  have hcr : c * r ≤ r := mul_le_of_le_one_left hr0 hc1
  have hw0 := Format.nearest_nonneg (f := .binary32) hcr0
  have hwr := Format.nearest_le_of_holds hx.holds hcr
  have hweighted := hc.mul hx (abs_le_limit_of_le_square hcr0
    (hcr.trans (hr.trans (two_zpow_le (by decide)))))
  have hproduct : Format.binary32.nearest (c * r) * t ≤ 2 ^ (62 : ℤ) := by
    rw [show (2 : ℚ) ^ (62 : ℤ) = 2 ^ (31 : ℤ) * 2 ^ (31 : ℤ) by norm_num]
    exact mul_le_mul (hwr.trans hr) ht ht0 (two_zpow_pos _).le
  exact ⟨_, hw0, hwr, hweighted.mul hy
    (abs_le_limit_of_le_square (mul_nonneg hw0 ht0) hproduct)⟩

/-- Every vector is within the angle of itself. -/
theorem withinAngle_self (h v : Int16) :
    withinAngle h.toInt v.toInt h.toInt v.toInt cosSquaredLimit = true := by
  obtain ⟨r, hr, hr0, hrle⟩ := squares_denote h v
  obtain ⟨w, -, hwr, hleft⟩ :=
    weighted_squares_denote hr hr0 hrle hr hr0 hrle
  have hsquare : r * r ≤ 2 ^ (62 : ℤ) := by
    rw [show (2 : ℚ) ^ (62 : ℤ) = 2 ^ (31 : ℤ) * 2 ^ (31 : ℤ) by norm_num]
    exact mul_le_mul hrle hrle hr0 (two_zpow_pos _).le
  have hright := hr.mul hr
    (abs_le_limit_of_le_square (mul_nonneg hr0 hr0) hsquare)
  unfold withinAngle
  rw [Bool.and_eq_true]
  constructor
  · exact ((zero_denotes false).atMost_iff hr).2 hr0
  · -- the factor goes in front of the first of the two roundings
    apply (hleft.atMost_iff hright).2
    exact Format.nearest_mono (mul_le_mul_of_nonneg_right hwr hr0)

-- ================================================================= one place

/-- Single precision holds every sample. -/
theorem ofInt_sample_denotes (x : Int16) :
    (ofInt x.toInt : Binary32).Denotes x.toInt := by
  refine ofInt_denotes_self ?_ (by decide) (by decide)
  exact (abs_sample_le x).trans (show (2 : ℤ) ^ 15 ≤ 2 ^ 24 by decide)

/-- A sample goes into single precision and back. -/
theorem ceilSample_ofInt (x : Int16) :
    (ofInt x.toInt : Binary32).ceilSample = x := by
  have hlo := x.le_toInt
  have hhi := x.toInt_lt
  unfold ceilSample
  rw [(ofInt_sample_denotes x).ceilInt_eq, Int.ceil_intCast,
    min_eq_right (by omega), max_eq_right (by omega), Int16.ofInt_toInt]

/-- A coefficient that is its own candidate is restored as it is. -/
theorem Split.along_self (x : Int16) : Split.along x (.ofInt x.toInt) = ⟨x, 0⟩ := by
  have hzero : (ofInt x.toInt - ofInt x.toInt : Binary32).Denotes 0 := by
    have h := (ofInt_sample_denotes x).sub (ofInt_sample_denotes x) <| by
      rw [sub_self, abs_zero]
      exact (Format.limit_pos _).le
    rwa [sub_self, Format.nearest_zero] at h
  unfold Split.along
  congr 1
  · exact ceilSample_ofInt x
  · unfold ceilSample
    rw [hzero.ceilInt_eq, Int.ceil_zero]
    rfl

/-- Where the vectors agree the distorted coefficients are restored as they
are, in all orientations. -/
theorem Split.ofDetails_of_withinAngle {x y : Details Int16}
    (h : withinAngle x.horizontal.toInt x.vertical.toInt y.horizontal.toInt
      y.vertical.toInt cosSquaredLimit = true) (o : Orientation) :
    (Split.ofDetails x y).get o = ⟨y.get o, 0⟩ := by
  unfold Split.ofDetails
  rw [h]
  simp only [if_true, Details.get_ofFn]
  exact Split.along_self _

theorem Split.ofDetails_self (x : Details Int16) (o : Orientation) :
    (Split.ofDetails x x).get o = ⟨x.get o, 0⟩ :=
  Split.ofDetails_of_withinAngle (withinAngle_self _ _) o

/-- What is zero is not visible. -/
theorem visible_zero (weight : ℤ) : visible weight 0 = 0 := by
  unfold visible
  rw [Int16.toInt_zero, mul_zero]
  rfl

namespace Masking

/-- Nothing added makes no threshold. -/
theorem threshold_zero {d : Dims} (h : d.Nonempty) :
    threshold (Detail.zero d) h = fun _ _ => 0 := by
  funext i j
  have hsum (o : Orientation) (s : Surroundings d) :
      neighbourhood (Detail.zero d o) s = 0 := by
    simp [neighbourhood, Detail.zero]
  simp only [threshold, hsum]
  rfl

/-- Without a threshold the magnitude is left. -/
theorem cubed_mask_zero (x : Int16) : Pooling.cubed (mask x 0) = Pooling.cubed x := by
  have hlo := x.le_toInt
  have hhi := x.toInt_lt
  have habs : (mask x 0).toInt.natAbs = x.toInt.natAbs := by
    unfold mask
    rw [toInt_narrow, Int16.toInt_zero, Int.bmod_eq_emod]
    split <;> omega
  unfold Pooling.cubed
  rw [habs]

end Masking

-- ================================================================ all places

theorem Pooling.cubeSum_congr {d : Dims} {x y : Raster Int16 d}
    (h : ∀ i j, cubed (x i j) = cubed (y i j)) (r : Region) :
    cubeSum x r = cubeSum y r := by
  unfold cubeSum
  simp only [h]

namespace Detail

variable {d : Dims}

theorem split_self (x : Detail d) (i : Fin d.height) (j : Fin d.width)
    (o : Orientation) : (x.split x i j).get o = ⟨x o i j, 0⟩ := by
  unfold split place
  rw [Split.ofDetails_self, Details.get_ofFn]

theorem restored_self (x : Detail d) : x.restored x = x := by
  funext o i j
  exact congrArg Split.restored (x.split_self i j o)

theorem impairment_self (x : Detail d) : x.impairment x = zero d := by
  funext o i j
  exact congrArg Split.impairment (x.split_self i j o)

theorem visibleAt_zero (scale : Fin Dims.scaleCount) :
    (zero d).visibleAt scale = zero d := by
  funext o i j
  exact visible_zero _

/-- Masking by nothing does not change a norm. -/
theorem pooled_maskedBy_zero (x : Detail d) (r : Region) :
    (x.maskedBy fun _ _ => 0).pooled r = x.pooled r := by
  have h (o : Orientation) : Pooling.cubeSum (x.maskedBy (fun _ _ => 0) o) r
      = Pooling.cubeSum (x o) r :=
    Pooling.cubeSum_congr (fun _ _ => Masking.cubed_mask_zero _) r
  unfold pooled
  simp only [h]

end Detail

end AdditiveDetail

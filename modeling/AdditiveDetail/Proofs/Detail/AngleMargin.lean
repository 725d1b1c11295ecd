/-
The angle test against the test in exact arithmetic.

# The exact test

Two vectors enclose an angle within the limit when their inner product is
not below zero and its square not below a share of the product of their
squared lengths (`Encloses`). For vectors of samples all three are
integers, of up to 32 bits, and `withinAngle` narrows each of them to
single precision before it multiplies.

# The margin

Three roundings stand behind the left side of the comparison and four
behind the right one (`withinAngle_rounded`). Seven parts in `2 ^ 24` are
less than one part in `2 ^ 21`, so the test is right wherever the exact one
is not that close to a tie. The sign of the inner product is never in
doubt, since an integer does not lose its sign in a rounding.
-/
import AdditiveDetail.Proofs.Binary.Roundings
import AdditiveDetail.Proofs.Detail.Lost
import AdditiveDetail.Proofs.Detail.Splitting

namespace AdditiveDetail

open Binary

-- ============================================================== the exact test

/-- The angle test in exact arithmetic, against a share `c` of the product
of the squared lengths. -/
structure Encloses (c : ℚ) (oh ov th tv : ℤ) : Prop where
  inner_nonneg : 0 ≤ oh * th + ov * tv
  share_le_square : c * (oh * oh + ov * ov : ℤ) * (th * th + tv * tv : ℤ)
    ≤ ((oh * th + ov * tv : ℤ) : ℚ) ^ 2

variable {c : ℚ} {oh ov th tv : ℤ}

theorem squaredLength_nonneg (h v : ℤ) : 0 ≤ h * h + v * v :=
  add_nonneg (mul_self_nonneg h) (mul_self_nonneg v)

/-- A vector encloses its multiples, within every share of at most one. -/
theorem encloses_multiple (hc : c ≤ 1) (n : ℕ) (hh : th = n * oh)
    (hv : tv = n * ov) : Encloses c oh ov th tv := by
  have hlength := squaredLength_nonneg oh ov
  have hinner : oh * th + ov * tv = n * (oh * oh + ov * ov) := by
    rw [hh, hv]; ring
  have hmultiple : th * th + tv * tv = n * (n * (oh * oh + ov * ov)) := by
    rw [hh, hv]; ring
  constructor
  · rw [hinner]
    exact mul_nonneg (Int.natCast_nonneg n) hlength
  · rw [hinner, hmultiple]
    generalize oh * oh + ov * ov = length at hlength
    have hsquare : (0 : ℚ) ≤ (n * length : ℤ) ^ 2 := sq_nonneg _
    calc c * (length : ℤ) * (n * (n * length) : ℤ)
        = c * ((n * length : ℤ) : ℚ) ^ 2 := by push_cast; ring
      _ ≤ ((n * length : ℤ) : ℚ) ^ 2 := mul_le_of_le_one_left hsquare hc

-- =================================================================== the limit

theorem cosSquaredLimit_canonical :
    Format.binary32.Canonical 16772106 (-24) := by
  decide

theorem cosSquaredLimit_eq : cosSquaredLimit
    = .finite false 16772106 (-24) cosSquaredLimit_canonical := by
  decide +kernel

/-- The value of the limit. -/
theorem cosSquaredLimit_denotes_value :
    cosSquaredLimit.Denotes (8386053 / 2 ^ 23) := by
  rw [cosSquaredLimit_eq]
  show value false 16772106 (-24) = _
  rw [value_false]
  norm_num

/-- The right side of the exact test. -/
theorem share_nonneg (hhalf : 1 / 2 ≤ c) (oh ov th tv : ℤ) :
    0 ≤ c * (oh * oh + ov * ov : ℤ) * (th * th + tv * tv : ℤ) := by
  have hreference : (0 : ℚ) ≤ (oh * oh + ov * ov : ℤ) := by
    exact_mod_cast squaredLength_nonneg oh ov
  have hdistorted : (0 : ℚ) ≤ (th * th + tv * tv : ℤ) := by
    exact_mod_cast squaredLength_nonneg th tv
  exact mul_nonneg (mul_nonneg (by linarith) hreference) hdistorted

-- =========================================================== the rounded sides

/-- An integer that is not zero keeps a distance from zero. -/
theorem one_le_of_ne_zero {i : ℤ} (hi : 0 ≤ i) (hne : (i : ℚ) ≠ 0) :
    (1 : ℚ) ≤ i := by
  have hne' : i ≠ 0 := by exact_mod_cast hne
  exact_mod_cast (show 1 ≤ i by omega)

theorem half_le_mul {x y : ℚ} (hx : 1 / 2 ≤ x) (hy : 1 ≤ y) :
    1 / 2 ≤ x * y :=
  hx.trans (le_mul_of_one_le_right (by linarith) hy)

/-- An integer that is finite in single precision was rounded once. -/
theorem ofInt_rounded {i : ℤ} (hi : 0 ≤ i)
    (h : (ofInt i : Binary32).isFinite) :
    ∃ x, (ofInt i : Binary32).Denotes x ∧ Format.binary32.Rounded 1 x i := by
  have hi' : (0 : ℚ) ≤ i := by exact_mod_cast hi
  refine ⟨_, ofInt_denotes_of_isFinite h,
    (Format.Rounded.refl (i : ℚ)).nearest hi' (fun hne => ?_) (by decide)⟩
  exact (two_zpow_le (show (-149 + 24 : ℤ) ≤ 0 by decide)).trans
    (by rw [zpow_zero]; exact one_le_of_ne_zero hi hne)

/-- A finite product of rounded numbers was rounded once more. An exact
product of at least one half is far from being too small. -/
theorem mul_rounded {x y : Binary32} {a b q r : ℚ} {m n : ℕ}
    (hx : x.Denotes a) (hy : y.Denotes b) (h : (x * y).isFinite)
    (ha : Format.binary32.Rounded m a q) (hb : Format.binary32.Rounded n b r)
    (hq : 0 ≤ q) (hr : 0 ≤ r) (hhalf : q * r ≠ 0 → 1 / 2 ≤ q * r)
    (hcount : m + n ≤ 2 ^ 23) :
    ∃ z, (x * y).Denotes z ∧ Format.binary32.Rounded (m + n + 1) z (q * r) := by
  refine ⟨_, hx.mul_of_isFinite hy h,
    (ha.mul hb hq hr).nearest (mul_nonneg hq hr) (fun hne => ?_) ?_⟩
  · exact (two_zpow_le (show (-149 + 24 : ℤ) ≤ -1 by decide)).trans
      (by simpa using hhalf hne)
  · show 2 * (m + n) ≤ 2 ^ 24
    omega

/-- The sign of an inner product survives its rounding. -/
theorem zero_atMost_ofInt_iff {i : ℤ} (h : (ofInt i : Binary32).isFinite) :
    (0 : Binary32).atMost (ofInt i) ↔ 0 ≤ i := by
  refine ((zero_denotes false).atMost_iff
    (ofInt_denotes_of_isFinite h)).trans ?_
  constructor
  · -- an integer below zero is at most minus one, and the format holds that
    intro hnonneg
    by_contra hneg
    have hone : (1 : ℚ) ≤ |(i : ℚ)| := by
      exact_mod_cast Int.one_le_abs (show i ≠ 0 by omega)
    have hholds : Format.binary32.Holds 1 := by
      simpa using Format.holds_two_zpow (f := .binary32) (k := 0) (by decide)
    have hlt := (Format.nearest_neg_iff hholds one_pos hone).2
      (by exact_mod_cast (show i < 0 by omega))
    exact absurd hnonneg (not_le.2 hlt)
  · intro hi
    exact Format.nearest_nonneg (by exact_mod_cast hi)

/-- The square of an inner product, three roundings away. -/
theorem square_rounded {i : ℤ} (hi : 0 ≤ i)
    (h : (ofInt i : Binary32).isFinite)
    (hsquare : (ofInt i * ofInt i : Binary32).isFinite) :
    ∃ left, (ofInt i * ofInt i : Binary32).Denotes left ∧
      Format.binary32.Rounded 3 left ((i : ℚ) ^ 2) := by
  have hi' : (0 : ℚ) ≤ i := by exact_mod_cast hi
  obtain ⟨p, hp, hrounded⟩ := ofInt_rounded hi h
  rw [pow_two]
  refine mul_rounded hp hp hsquare hrounded hrounded hi' hi' (fun hne => ?_)
    (by decide)
  have hone := one_le_of_ne_zero hi (left_ne_zero_of_mul hne)
  exact half_le_mul (by linarith) hone

/-- The share of the product of two squared lengths, four roundings away. -/
theorem share_rounded (hc : cosSquaredLimit.Denotes c) (hhalf : 1 / 2 ≤ c)
    {a b : ℤ} (ha : 0 ≤ a) (hb : 0 ≤ b)
    (hafinite : (ofInt a : Binary32).isFinite)
    (hbfinite : (ofInt b : Binary32).isFinite)
    (hweighted : (cosSquaredLimit * ofInt a : Binary32).isFinite)
    (hproduct : (cosSquaredLimit * ofInt a * ofInt b : Binary32).isFinite) :
    ∃ right, (cosSquaredLimit * ofInt a * ofInt b : Binary32).Denotes right ∧
      Format.binary32.Rounded 4 right (c * a * b) := by
  have hc0 : 0 ≤ c := by linarith
  have ha' : (0 : ℚ) ≤ a := by exact_mod_cast ha
  have hb' : (0 : ℚ) ≤ b := by exact_mod_cast hb
  obtain ⟨r, hr, hrounded⟩ := ofInt_rounded ha hafinite
  obtain ⟨t, ht, htrounded⟩ := ofInt_rounded hb hbfinite
  have hweight (hne : c * (a : ℚ) ≠ 0) : 1 / 2 ≤ c * a :=
    half_le_mul hhalf (one_le_of_ne_zero ha (right_ne_zero_of_mul hne))
  obtain ⟨w, hw, hwrounded⟩ := mul_rounded hc hr hweighted
    (Format.Rounded.refl c) hrounded hc0 ha' hweight (by decide)
  exact mul_rounded hw ht hproduct hwrounded htrounded (mul_nonneg hc0 ha') hb'
    (fun hne => half_le_mul (hweight (left_ne_zero_of_mul hne))
      (one_le_of_ne_zero hb (right_ne_zero_of_mul hne))) (by decide)

/-- Where the inner product is not below zero the test compares two
numbers, one rounded three times and one rounded four times. -/
theorem withinAngle_rounded (h : AngleFinite oh ov th tv)
    (hc : cosSquaredLimit.Denotes c) (hhalf : 1 / 2 ≤ c)
    (hinner : 0 ≤ oh * th + ov * tv) :
    ∃ left right,
      (withinAngle oh ov th tv cosSquaredLimit = true ↔ right ≤ left) ∧
      Format.binary32.Rounded 3 left ((oh * th + ov * tv : ℤ) ^ 2) ∧
      Format.binary32.Rounded 4 right
        (c * (oh * oh + ov * ov : ℤ) * (th * th + tv * tv : ℤ)) := by
  obtain ⟨left, hleft, hsquare⟩ :=
    square_rounded hinner h.inner h.innerSquare
  obtain ⟨right, hright, hshare⟩ := share_rounded hc hhalf
    (squaredLength_nonneg oh ov) (squaredLength_nonneg th tv) h.reference
    h.distorted h.weighted h.product
  refine ⟨left, right, ?_, hsquare, hshare⟩
  unfold withinAngle
  rw [Bool.and_eq_true, zero_atMost_ofInt_iff h.inner, hright.atMost_iff hleft]
  exact and_iff_right hinner

/-- What is accepted does not point away. -/
theorem inner_nonneg_of_withinAngle (h : AngleFinite oh ov th tv)
    (haccepted : withinAngle oh ov th tv cosSquaredLimit = true) :
    0 ≤ oh * th + ov * tv := by
  unfold withinAngle at haccepted
  rw [Bool.and_eq_true, zero_atMost_ofInt_iff h.inner] at haccepted
  exact haccepted.1

-- ================================================================== the margin

/-- What the angle test of two vectors of samples says, told by the exact
test against the value `c` of the limit: what it must accept, what it can
accept, and that it meets no number that is not finite. -/
structure AngleMargin (c : ℚ) (oh ov th tv : Int16) : Prop where
  accepts : Encloses (c * (1 + 2 ^ (-21 : ℤ))) oh.toInt ov.toInt th.toInt
    tv.toInt →
    withinAngle oh.toInt ov.toInt th.toInt tv.toInt cosSquaredLimit = true
  accepted : withinAngle oh.toInt ov.toInt th.toInt tv.toInt cosSquaredLimit
    = true →
    Encloses (c * (1 - 2 ^ (-21 : ℤ))) oh.toInt ov.toInt th.toInt tv.toInt
  accepts_zero : oh = 0 ∧ ov = 0 ∨ th = 0 ∧ tv = 0 →
    withinAngle oh.toInt ov.toInt th.toInt tv.toInt cosSquaredLimit = true
  accepts_multiple : ∀ n : ℕ, th.toInt = n * oh.toInt →
    tv.toInt = n * ov.toInt →
    withinAngle oh.toInt ov.toInt th.toInt tv.toInt cosSquaredLimit = true
  refuses_opposite : oh.toInt * th.toInt + ov.toInt * tv.toInt < 0 →
    withinAngle oh.toInt ov.toInt th.toInt tv.toInt cosSquaredLimit = false
  finite : AngleFinite oh.toInt ov.toInt th.toInt tv.toInt

/-- What the exact test accepts with the margin is accepted. -/
theorem withinAngle_of_encloses (hfinite : AngleFinite oh ov th tv)
    (hc : cosSquaredLimit.Denotes c) (hhalf : 1 / 2 ≤ c)
    (h : Encloses (c * (1 + 2 ^ (-21 : ℤ))) oh ov th tv) :
    withinAngle oh ov th tv cosSquaredLimit = true := by
  obtain ⟨left, right, htest, hleft, hright⟩ :=
    withinAngle_rounded hfinite hc hhalf h.inner_nonneg
  have hshare := share_nonneg hhalf oh ov th tv
  refine htest.2 (hleft.le_of_apart hright hshare (2 ^ (-21 : ℤ)) ?_ ?_)
  · norm_num [Format.roundoff, Format.binary32]
  · calc c * (oh * oh + ov * ov : ℤ) * (th * th + tv * tv : ℤ)
          * (1 + 2 ^ (-21 : ℤ))
        = c * (1 + 2 ^ (-21 : ℤ)) * (oh * oh + ov * ov : ℤ)
          * (th * th + tv * tv : ℤ) := by ring
      _ ≤ _ := h.share_le_square

/-- What is accepted is accepted by the exact test with the margin. -/
theorem encloses_of_withinAngle (hfinite : AngleFinite oh ov th tv)
    (hc : cosSquaredLimit.Denotes c) (hhalf : 1 / 2 ≤ c)
    (h : withinAngle oh ov th tv cosSquaredLimit = true) :
    Encloses (c * (1 - 2 ^ (-21 : ℤ))) oh ov th tv := by
  have hinner := inner_nonneg_of_withinAngle hfinite h
  obtain ⟨left, right, htest, hleft, hright⟩ :=
    withinAngle_rounded hfinite hc hhalf hinner
  have hshare := share_nonneg hhalf oh ov th tv
  refine ⟨hinner, ?_⟩
  calc c * (1 - 2 ^ (-21 : ℤ)) * (oh * oh + ov * ov : ℤ)
        * (th * th + tv * tv : ℤ)
      = c * (oh * oh + ov * ov : ℤ) * (th * th + tv * tv : ℤ)
        * (1 - 2 ^ (-21 : ℤ)) := by ring
    _ ≤ _ := hleft.apart_of_le hright hshare (2 ^ (-21 : ℤ))
        (by norm_num [Format.roundoff, Format.binary32]) (htest.1 h)

/-- THE MARGIN OF THE ANGLE TEST: the limit has a value, and for all vectors
of samples the test in single precision agrees with the exact one against
that value, up to one part in `2 ^ 21` on each side. -/
theorem withinAngle_margin : ∃ c, cosSquaredLimit.Denotes c ∧
    ∀ oh ov th tv : Int16, AngleMargin c oh ov th tv := by
  have hc := cosSquaredLimit_denotes_value
  have hhalf : (1 / 2 : ℚ) ≤ 8386053 / 2 ^ 23 := by norm_num
  refine ⟨_, hc, fun oh ov th tv => ?_⟩
  have hfinite := angle_finite oh ov th tv
  exact {
    accepts := withinAngle_of_encloses hfinite hc hhalf
    accepted := encloses_of_withinAngle hfinite hc hhalf
    accepts_zero := withinAngle_zero
    accepts_multiple := fun n hh hv =>
      withinAngle_of_encloses hfinite hc hhalf
        (encloses_multiple (by norm_num) n hh hv)
    refuses_opposite := fun hopposite => Bool.eq_false_iff.2 fun haccepted =>
      absurd hopposite (not_lt.2
        (inner_nonneg_of_withinAngle hfinite haccepted))
    finite := hfinite }

/-- Two pairs of vectors right beside the limit: the first one is accepted,
and the second one is not. -/
theorem withinAngle_margin_beside_limit :
    withinAngle 26381 18681 25761 18925 cosSquaredLimit = true ∧
      withinAngle (-9380) (-29383) (-8648) (-28818) cosSquaredLimit
        = false := by
  obtain ⟨c, hc, hmargin⟩ := withinAngle_margin
  obtain rfl := hc.unique cosSquaredLimit_denotes_value
  constructor
  · refine (hmargin 26381 18681 25761 18925).accepts ⟨?_, ?_⟩
    · decide
    · show _ * _ * ((26381 * 26381 + 18681 * 18681 : ℤ) : ℚ)
        * (25761 * 25761 + 18925 * 18925 : ℤ)
        ≤ ((26381 * 25761 + 18681 * 18925 : ℤ) : ℚ) ^ 2
      norm_num
  · refine Bool.eq_false_iff.2 fun haccepted => ?_
    have hencloses := (hmargin (-9380) (-29383) (-8648) (-28818)).accepted
      haccepted
    have hle := hencloses.share_le_square
    revert hle
    show ¬(_ * _ * (((-9380) * (-9380) + (-29383) * (-29383) : ℤ) : ℚ)
      * ((-8648) * (-8648) + (-28818) * (-28818) : ℤ)
      ≤ (((-9380) * (-8648) + (-29383) * (-28818) : ℤ) : ℚ) ^ 2)
    norm_num

end AdditiveDetail

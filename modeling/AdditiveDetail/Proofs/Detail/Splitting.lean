/-
The split of a coefficient, in integers.

# The law

A coefficient is split along a candidate of floating point, and yet the
split has a law in integers (`SplitLaw`). Where the vectors agree the
candidate is the distorted coefficient. Elsewhere the gain is zero where
the signs differ and one where the distorted coefficient is the greater
one, and both times the candidate is an integer (`along_whole`). Only a
coefficient that is attenuated has a rounded candidate, within one half
of it (`along_beside`): rounding up can then make one of the two parts
greater by one, and never both of them.

# Numbers that are no integers

Nothing on the way of the gain is an infinity or a NaN: the last of its
numbers is finite, and an operation does not lead from there to a finite
number (`GainFinite.of_quotient`). What is narrowed to a sample is a whole
number already and is the number of that sample (`Split.Exact`).
-/
import AdditiveDetail.Proofs.Detail.Candidate
import AdditiveDetail.Proofs.Detail.Quotient

namespace AdditiveDetail

open Binary

-- ============================================================= finite numbers

namespace Binary

variable {f g : Format}

theorem Denotes.isFinite {x : Binary f} {q : ℚ} (h : x.Denotes q) :
    x.isFinite := by
  obtain ⟨s, m, e, j, rfl, -⟩ := h.exists_finite
  rfl

/-- A finite number was converted from a finite number. -/
theorem isFinite_of_convert {x : Binary f}
    (h : (x.convert : Binary g).isFinite) : x.isFinite := by
  cases x with
  | nan => exact h
  | infinity => exact h
  | finite => rfl

/-- The second factor of a finite product is finite. -/
theorem isFinite_of_mul {x y : Binary f} (h : (x * y).isFinite) :
    y.isFinite := by
  cases y with
  | finite => rfl
  | nan => cases x <;> exact h
  | infinity t =>
      cases x with
      | nan => exact h
      | infinity => exact h
      | finite s m e j =>
          have hmul : (finite s m e j * infinity t : Binary f)
              = if m = 0 then .nan else .infinity (s ^^ t) := rfl
          rw [hmul] at h
          split at h <;> exact h

/-- Clamping goes to one of three numbers. -/
theorem isFinite_clamp {x low high : Binary f} (hx : x.isFinite)
    (hlow : low.isFinite) (hhigh : high.isFinite) :
    (x.clamp low high).isFinite := by
  unfold clamp
  split_ifs <;> assumption

end Binary

/-- Every number on the way of the gain is finite. -/
structure GainFinite (reference distorted : Int) : Prop where
  guarded : (.ofInt reference + gainGuard : Binary32).isFinite
  reciprocal : (.ofNat 1
    / (.ofInt reference + gainGuard : Binary32).convert : Binary64).isFinite
  product : (.ofInt distorted * (.ofNat 1
    / (.ofInt reference + gainGuard : Binary32).convert) : Binary64).isFinite
  quotient : (formulaQuotient reference distorted).isFinite
  gain : (detailGain reference distorted).isFinite

/-- Behind a finite quotient everything is finite. -/
theorem GainFinite.of_quotient {r t : Int}
    (hguarded : (.ofInt r + gainGuard : Binary32).isFinite)
    (h : (formulaQuotient r t).isFinite) : GainFinite r t where
  guarded := hguarded
  reciprocal := isFinite_of_mul (isFinite_of_convert h)
  product := isFinite_of_convert h
  quotient := h
  gain := isFinite_clamp h rfl rfl

/-- The gain of integers of sixteen bits stays finite, for a reference of
zero too. -/
theorem gain_finite {r t : ℤ} (hr : r.natAbs < 2 ^ 16)
    (ht : t.natAbs < 2 ^ 16) : GainFinite r t := by
  by_cases hr0 : r = 0
  · subst hr0
    obtain ⟨q, hq, -⟩ := formulaQuotient_zero ht
    exact .of_quotient (by decide +kernel) hq.isFinite
  · exact .of_quotient (guarded_denotes hr0 hr).isFinite
      (formulaQuotient_denotes hr0 hr ht).isFinite

/-- Every number that the angle test compares, or makes on the way, is
finite. -/
structure AngleFinite (oh ov th tv : Int) : Prop where
  inner : (.ofInt (oh * th + ov * tv) : Binary32).isFinite
  reference : (.ofInt (oh * oh + ov * ov) : Binary32).isFinite
  distorted : (.ofInt (th * th + tv * tv) : Binary32).isFinite
  innerSquare : (.ofInt (oh * th + ov * tv) * .ofInt (oh * th + ov * tv)
    : Binary32).isFinite
  weighted : (cosSquaredLimit * .ofInt (oh * oh + ov * ov)
    : Binary32).isFinite
  product : (cosSquaredLimit * .ofInt (oh * oh + ov * ov)
    * .ofInt (th * th + tv * tv) : Binary32).isFinite

/-- An inner product of samples. -/
theorem inner_denotes (oh ov th tv : Int16) :
    ∃ p, (.ofInt (oh.toInt * th.toInt + ov.toInt * tv.toInt)
        : Binary32).Denotes p ∧ |p| ≤ 2 ^ (31 : ℤ) := by
  have hproduct (x y : Int16) : |x.toInt * y.toInt| ≤ 2 ^ 30 := by
    rw [abs_mul]
    exact (mul_le_mul (abs_sample_le x) (abs_sample_le y) (abs_nonneg _)
      (by decide)).trans (by decide)
  have hle : |oh.toInt * th.toInt + ov.toInt * tv.toInt| ≤ 2 ^ 31 := by
    have := (abs_add_le _ _).trans
      (add_le_add (hproduct oh th) (hproduct ov tv))
    omega
  generalize oh.toInt * th.toInt + ov.toInt * tv.toInt = inner at *
  have hle' : |(inner : ℚ)| ≤ 2 ^ (31 : ℤ) := by exact_mod_cast hle
  exact ⟨_, ofInt_denotes (hle'.trans (Format.two_zpow_le_limit (by decide))),
    Format.abs_nearest_le_of_holds (Format.holds_two_zpow (by decide)) hle'⟩

/-- The angle test of samples meets finite numbers only. -/
theorem angle_finite (oh ov th tv : Int16) :
    AngleFinite oh.toInt ov.toInt th.toInt tv.toInt := by
  obtain ⟨p, hp, hple⟩ := inner_denotes oh ov th tv
  obtain ⟨r, hr, hr0, hrle⟩ := squares_denote oh ov
  obtain ⟨t, ht, ht0, htle⟩ := squares_denote th tv
  obtain ⟨w, -, -, hweighted⟩ := weighted_squares_denote hr hr0 hrle ht ht0 htle
  obtain ⟨c, hc, hc0, hc1⟩ := cosSquaredLimit_denotes
  have hsquare : p * p ≤ 2 ^ (62 : ℤ) := by
    rw [← abs_mul_abs_self, show (2 : ℚ) ^ (62 : ℤ)
      = 2 ^ (31 : ℤ) * 2 ^ (31 : ℤ) by norm_num]
    exact mul_le_mul hple hple (abs_nonneg p) (two_zpow_pos _).le
  have hfactor : c * r ≤ 2 ^ (62 : ℤ) :=
    (mul_le_of_le_one_left hr0 hc1).trans
      (hrle.trans (two_zpow_le (by decide)))
  exact {
    inner := hp.isFinite
    reference := hr.isFinite
    distorted := ht.isFinite
    innerSquare := (hp.mul hp
      (abs_le_limit_of_le_square (mul_self_nonneg p) hsquare)).isFinite
    weighted := (hc.mul hr
      (abs_le_limit_of_le_square (mul_nonneg hc0 hr0) hfactor)).isFinite
    product := hweighted.isFinite }

-- ==================================================================== the law

/-- What a distorted coefficient `t` may be split into beside a reference
coefficient `o`: the restored part `r` and the impairment `a`. -/
structure SplitLaw (agree : Prop) (o t r a : Int) : Prop where
  agreeing : agree → r = t ∧ a = 0
  opposite : ¬agree → o * t ≤ 0 → r = 0 ∧ a = t
  exceeding : ¬agree → 0 < o * t → |o| ≤ |t| → r = o ∧ a = t - o
  attenuated : ¬agree → 0 < o * t → |t| < |o| →
    (r = t ∨ r = t + 1) ∧ (a = 0 ∨ a = 1) ∧ (r + a = t ∨ r + a = t + 1)

namespace SplitLaw

variable {agree : Prop} {o t r a : Int}

/-- One of the four cases is the case, with all that decides it. -/
theorem split_cases (h : SplitLaw agree o t r a) :
    (agree ∧ r = t ∧ a = 0) ∨
      (¬agree ∧ o * t ≤ 0 ∧ r = 0 ∧ a = t) ∨
      (¬agree ∧ 0 < o * t ∧ |o| ≤ |t| ∧ r = o ∧ a = t - o) ∨
      (¬agree ∧ 0 < o * t ∧ |t| < |o| ∧ (r = t ∨ r = t + 1) ∧
        (a = 0 ∨ a = 1) ∧ (r + a = t ∨ r + a = t + 1)) := by
  by_cases hagree : agree
  · exact .inl ⟨hagree, h.agreeing hagree⟩
  rcases le_or_gt (o * t) 0 with hsign | hsign
  · exact .inr (.inl ⟨hagree, hsign, h.opposite hagree hsign⟩)
  rcases le_or_gt |o| |t| with hle | hlt
  · exact .inr (.inr (.inl ⟨hagree, hsign, hle, h.exceeding hagree hsign hle⟩))
  · exact .inr (.inr (.inr
      ⟨hagree, hsign, hlt, h.attenuated hagree hsign hlt⟩))

/-- The parts make up the coefficient, or one more. -/
theorem sum_parts (h : SplitLaw agree o t r a) :
    r + a - t = 0 ∨ r + a - t = 1 := by
  rcases h.split_cases with ⟨-, hr, ha⟩ | ⟨-, -, hr, ha⟩ | ⟨-, -, -, hr, ha⟩ |
      ⟨-, -, -, -, -, hsum⟩ <;> omega

/-- Where the vectors do not agree, what is restored lies between zero and
the reference. -/
theorem restored_between (h : SplitLaw agree o t r a) (hagree : ¬agree) :
    0 ≤ r ∧ r ≤ o ∨ o ≤ r ∧ r ≤ 0 := by
  rcases h.split_cases with ⟨h, -⟩ | ⟨-, -, hr, -⟩ | ⟨-, -, -, hr, -⟩ |
      ⟨-, hsign, hlt, hr, -⟩
  · exact absurd h hagree
  · omega
  · omega
  · have hsigns := mul_pos_iff.1 hsign
    rw [Int.abs_eq_natAbs, Int.abs_eq_natAbs] at hlt
    omega

end SplitLaw

-- ================================================================= rounding up

/-- A number between two samples is rounded up to a sample. -/
theorem toInt_ceilSample {x : Binary32} {q : ℚ} (hx : x.Denotes q)
    (lo : -32768 ≤ ⌈q⌉) (hi : ⌈q⌉ ≤ 32767) : x.ceilSample.toInt = ⌈q⌉ := by
  unfold ceilSample
  rw [hx.ceilInt_eq, min_eq_right hi, max_eq_right lo]
  exact toInt_narrow_of_mem lo hi

/-- A number within the range of samples is rounded up inside its format,
to the number of the sample that it is narrowed to. -/
theorem ceil_denotes_ceilSample {x : Binary32} {q : ℚ} (hx : x.Denotes q)
    (lo : -32768 ≤ ⌈q⌉) (hi : ⌈q⌉ ≤ 32767) :
    x.ceil.Denotes x.ceilSample.toInt := by
  have hsmall : |⌈q⌉| ≤ 2 ^ 24 := abs_le.2 ⟨by omega, by omega⟩
  obtain ⟨hlimit, hnearest⟩ := nearest_whole hsmall
  have hceil := hx.ceil hlimit
  rwa [hnearest, ← toInt_ceilSample hx lo hi] at hceil

/-- What is a half at the most is rounded up to zero or one. -/
theorem ceil_of_small {a : ℚ} (h : |a| ≤ 1 / 2) : ⌈a⌉ = 0 ∨ ⌈a⌉ = 1 := by
  obtain ⟨hlo, hhi⟩ := abs_le.1 h
  have h0 : -1 < ⌈a⌉ := Int.lt_ceil.2 (by push_cast; linarith)
  have h1 : ⌈a⌉ ≤ 1 := Int.ceil_le.2 (by push_cast; linarith)
  omega

/-- A coefficient exceeds a candidate beside it by a half at the most, and
by nothing where the candidate is not below it. -/
theorem difference_near {t : Int16} {candidate : Binary32} {q : ℚ}
    (hc : candidate.Denotes q) (hnear : |q - t.toInt| ≤ 1 / 2) :
    ∃ a, (.ofInt t.toInt - candidate : Binary32).Denotes a ∧
      |a| ≤ 1 / 2 ∧ (t.toInt ≤ q → a ≤ 0) := by
  have hhalf := holds_sample_half 1 (by decide)
  rw [Int.cast_one] at hhalf
  rw [abs_sub_comm] at hnear
  refine ⟨_, (ofInt_sample_denotes t).sub hc (hnear.trans ?_),
    Format.abs_nearest_le_of_holds hhalf hnear, fun hle => ?_⟩
  · have := Format.two_zpow_le_limit (f := .binary32) (k := 0) (by decide)
    rw [zpow_zero] at this
    linarith
  · have := Format.nearest_mono (f := .binary32) (sub_nonpos.2 hle)
    rwa [Format.nearest_zero] at this

-- ================================================================== one place

namespace Split

/-- The candidate of an orientation, by the formula of the gain. -/
def candidate (x y : Details Int16) (o : Orientation) : Binary32 :=
  if withinAngle x.horizontal.toInt x.vertical.toInt y.horizontal.toInt
      y.vertical.toInt cosSquaredLimit then
    .ofInt (y.get o).toInt
  else
    detailGain (x.get o).toInt (y.get o).toInt * .ofInt (x.get o).toInt

/-- The two numbers that are narrowed to samples are finite, and rounded up
they are the samples that they are narrowed to. -/
structure Exact (s : Split) (t : Int16) (candidate : Binary32) : Prop where
  candidate_finite : candidate.isFinite
  difference_finite : (.ofInt t.toInt - candidate : Binary32).isFinite
  restored : candidate.ceil.Denotes s.restored.toInt
  impairment :
    (.ofInt t.toInt - candidate : Binary32).ceil.Denotes s.impairment.toInt

theorem get_ofDetails (x y : Details Int16) (o : Orientation) :
    (ofDetails x y).get o = along (y.get o) (candidate x y o) := by
  unfold ofDetails candidate
  simp only [Details.get_ofFn, sampleGain_eq]

/-- A split along numbers in the range of samples is exact. -/
theorem along_exact {t : Int16} {candidate : Binary32} {q a : ℚ}
    (hq : candidate.Denotes q)
    (ha : (.ofInt t.toInt - candidate : Binary32).Denotes a)
    (hq_range : -32768 ≤ ⌈q⌉ ∧ ⌈q⌉ ≤ 32767)
    (ha_range : -32768 ≤ ⌈a⌉ ∧ ⌈a⌉ ≤ 32767) :
    Exact (along t candidate) t candidate ∧
      (along t candidate).restored.toInt = ⌈q⌉ ∧
      (along t candidate).impairment.toInt = ⌈a⌉ where
  left := {
    candidate_finite := hq.isFinite
    difference_finite := ha.isFinite
    restored := ceil_denotes_ceilSample hq hq_range.1 hq_range.2
    impairment := ceil_denotes_ceilSample ha ha_range.1 ha_range.2 }
  right := ⟨toInt_ceilSample hq hq_range.1 hq_range.2,
    toInt_ceilSample ha ha_range.1 ha_range.2⟩

/-- A candidate that is an integer is restored, and the impairment is what
the coefficient exceeds it by. -/
theorem along_whole {t : Int16} {candidate : Binary32} {n : ℤ}
    (h : candidate.Denotes n) (hn : -32768 ≤ n ∧ n ≤ 32767)
    (hrest : -32768 ≤ t.toInt - n ∧ t.toInt - n ≤ 32767) :
    Exact (along t candidate) t candidate ∧
      (along t candidate).restored.toInt = n ∧
      (along t candidate).impairment.toInt = t.toInt - n := by
  have hsmall : |t.toInt - n| ≤ 2 ^ 24 := abs_le.2 ⟨by omega, by omega⟩
  have hdifference : (.ofInt t.toInt - candidate : Binary32).Denotes
      ((t.toInt - n : ℤ) : ℚ) := by
    obtain ⟨hlimit, hnearest⟩ := nearest_whole hsmall
    rw [Int.cast_sub] at *
    have hsub := (ofInt_sample_denotes t).sub h hlimit
    rwa [hnearest] at hsub
  have := along_exact h hdifference (by rwa [Int.ceil_intCast])
    (by rwa [Int.ceil_intCast])
  rwa [Int.ceil_intCast, Int.ceil_intCast] at this

/-- A candidate beside the coefficient adds a one to one of the parts at
most. -/
theorem along_beside {t : Int16} {candidate : Binary32} {q : ℚ}
    (hq : candidate.Denotes q) (hnear : |q - t.toInt| ≤ 1 / 2)
    (ht : t.toInt < 32767) :
    let r := (along t candidate).restored.toInt
    let a := (along t candidate).impairment.toInt
    Exact (along t candidate) t candidate ∧
      (r = t.toInt ∨ r = t.toInt + 1) ∧ (a = 0 ∨ a = 1) ∧
      (r + a = t.toInt ∨ r + a = t.toInt + 1) := by
  obtain ⟨a, ha, hsmall, hnone⟩ := difference_near hq hnear
  have hone := ceil_of_small hsmall
  have hlo := t.le_toInt
  have hceil : ⌈q⌉ = t.toInt + ⌈q - t.toInt⌉ := by
    rw [Int.ceil_sub_intCast]
    omega
  have hextra := ceil_of_small hnear
  obtain ⟨hexact, hr, himpairment⟩ :=
    along_exact hq ha ⟨by omega, by omega⟩ ⟨by omega, by omega⟩
  simp only [hr, himpairment]
  refine ⟨hexact, by omega, hone, ?_⟩
  -- a candidate above the coefficient leaves nothing to add
  rcases le_total (t.toInt : ℚ) q with hle | hle
  · have : ⌈a⌉ ≤ 0 := Int.ceil_le.2 (by exact_mod_cast hnone hle)
    omega
  · have : ⌈q⌉ ≤ t.toInt := Int.ceil_le.2 hle
    omega

/-- Where the vectors do not agree. -/
theorem along_gain (o t : Int16) {agree : Prop} (hagree : ¬agree) :
    let candidate : Binary32 := sampleGain o t * .ofInt o.toInt
    let s := along t candidate
    Exact s t candidate ∧
      SplitLaw agree o.toInt t.toInt s.restored.toInt s.impairment.toInt := by
  have holo := o.le_toInt
  have hohi := o.toInt_lt
  have htlo := t.le_toInt
  have hthi := t.toInt_lt
  rcases le_or_gt (o.toInt * t.toInt) 0 with hsign | hsign
  · obtain ⟨g, hg, hzero⟩ := sampleGain_opposite hsign
    have hwhole := candidate_whole (n := 0) hg (by rw [hzero, Int.cast_zero])
      (by decide)
    obtain ⟨hexact, hr, ha⟩ := along_whole (t := t) hwhole (by decide) (by omega)
    exact ⟨hexact, {
      agreeing := fun h => absurd h hagree
      opposite := fun _ _ => ⟨hr, ha.trans (sub_zero _)⟩
      exceeding := fun _ h => absurd h hsign.not_gt
      attenuated := fun _ h => absurd h hsign.not_gt }⟩
  have hsigns := mul_pos_iff.1 hsign
  rcases le_or_gt |o.toInt| |t.toInt| with hle | hlt
  · have hwhole := candidate_whole (sampleGain_exceeding hsign hle)
      (one_mul _) ((abs_sample_le o).trans (by decide))
    obtain ⟨hexact, hr, ha⟩ :=
      along_whole (t := t) hwhole (by omega) (by omega)
    exact ⟨hexact, {
      agreeing := fun h => absurd h hagree
      opposite := fun _ h => absurd h hsign.not_ge
      exceeding := fun _ _ _ => ⟨hr, ha⟩
      attenuated := fun _ _ h => absurd h hle.not_gt }⟩
  · have hnatAbs := hlt
    rw [Int.abs_eq_natAbs, Int.abs_eq_natAbs] at hnatAbs
    obtain ⟨q, hq, hnear⟩ := gain_near hsign hlt
    obtain ⟨hexact, hparts⟩ := along_beside hq hnear (by omega)
    exact ⟨hexact, {
      agreeing := fun h => absurd h hagree
      opposite := fun _ h => absurd h hsign.not_ge
      exceeding := fun _ _ h => absurd h hlt.not_ge
      attenuated := fun _ _ _ => hparts }⟩

/-- Where they agree. -/
theorem along_agreeing (o t : Int16) {agree : Prop} (hagree : agree) :
    let candidate : Binary32 := .ofInt t.toInt
    let s := along t candidate
    Exact s t candidate ∧
      SplitLaw agree o.toInt t.toInt s.restored.toInt s.impairment.toInt := by
  have htlo := t.le_toInt
  have hthi := t.toInt_lt
  obtain ⟨hexact, hr, ha⟩ :=
    along_whole (t := t) (ofInt_sample_denotes t) (by omega) (by omega)
  exact ⟨hexact, {
    agreeing := fun _ => ⟨hr, ha.trans (sub_self _)⟩
    opposite := fun h => absurd hagree h
    exceeding := fun h => absurd hagree h
    attenuated := fun h => absurd hagree h }⟩

/-- One place: the law in integers, and no number out of range. -/
theorem ofDetails_exact (x y : Details Int16) (o : Orientation) :
    let s := (ofDetails x y).get o
    Exact s (y.get o) (candidate x y o) ∧
      SplitLaw (withinAngle x.horizontal.toInt x.vertical.toInt
          y.horizontal.toInt y.vertical.toInt cosSquaredLimit)
        (x.get o).toInt (y.get o).toInt s.restored.toInt s.impairment.toInt := by
  simp only [get_ofDetails]
  unfold candidate
  rw [← sampleGain_eq]
  split_ifs with hagree
  · exact along_agreeing _ _ hagree
  · exact along_gain _ _ hagree

end Split

-- ================================================================== all places

namespace Detail

variable {d : Dims}

/-- Whether the horizontal and the vertical detail of two pictures point the
same way at a place. -/
def agree (reference distorted : Detail d) (i : Fin d.height)
    (j : Fin d.width) : Bool :=
  withinAngle (reference .horizontal i j).toInt
    (reference .vertical i j).toInt (distorted .horizontal i j).toInt
    (distorted .vertical i j).toInt cosSquaredLimit

theorem split_exact (x y : Detail d) (o : Orientation) (i : Fin d.height)
    (j : Fin d.width) :
    Split.Exact ⟨x.restored y o i j, x.impairment y o i j⟩ (y o i j)
        (Split.candidate (x.place i j) (y.place i j) o) ∧
      SplitLaw (x.agree y i j) (x o i j).toInt (y o i j).toInt
        (x.restored y o i j).toInt (x.impairment y o i j).toInt := by
  have := Split.ofDetails_exact (x.place i j) (y.place i j) o
  rwa [show (x.place i j).get o = x o i j from Details.get_ofFn _ o,
    show (y.place i j).get o = y o i j from Details.get_ofFn _ o] at this

end Detail

/-- DECOUPLING: the detail of two pictures, of any samples and in windows of
one size, is split. At every place the two parts of each orientation keep
the law of the split: they make up the distorted coefficient or one more,
and where the vectors do not agree the restored part lies between zero and
the reference. No number of the angle test or of the gain is an infinity or
a NaN, and what is narrowed to a sample is the number of that sample. -/
theorem BandSet.decouple_exact {c₁ c₂ c₃ c₄ d : Dims}
    {reference : BandSet c₁} {distorted : BandSet c₂}
    (restored : BandSet c₃) (impairment : BandSet c₄) {x y : Detail d}
    (hx : reference.Shows x) (hy : distorted.Shows y) (h₃ : d ≤ c₃)
    (h₄ : d ≤ c₄) :
    ∃ r a, reference.decouple distorted restored impairment = .ok (r, a) ∧
      ∃ u v : Detail d, r.Shows u ∧ a.Shows v ∧ ∀ i j,
        AngleFinite (x .horizontal i j).toInt (x .vertical i j).toInt
          (y .horizontal i j).toInt (y .vertical i j).toInt ∧
        ∀ o,
          SplitLaw (x.agree y i j) (x o i j).toInt (y o i j).toInt
            (u o i j).toInt (v o i j).toInt ∧
          ((u o i j).toInt + (v o i j).toInt - (y o i j).toInt = 0 ∨
            (u o i j).toInt + (v o i j).toInt - (y o i j).toInt = 1) ∧
          (¬x.agree y i j →
            0 ≤ (u o i j).toInt ∧ (u o i j).toInt ≤ (x o i j).toInt ∨
              (x o i j).toInt ≤ (u o i j).toInt ∧ (u o i j).toInt ≤ 0) ∧
          GainFinite (x o i j).toInt (y o i j).toInt ∧
          Split.Exact ⟨u o i j, v o i j⟩ (y o i j)
            (Split.candidate (x.place i j) (y.place i j) o) := by
  obtain ⟨r, a, hsplit, hr, ha⟩ :=
    decouple_shows restored impairment hx hy h₃ h₄
  refine ⟨r, a, hsplit, _, _, hr, ha, fun i j => ⟨angle_finite .., fun o => ?_⟩⟩
  obtain ⟨hexact, hlaw⟩ := x.split_exact y o i j
  exact ⟨hlaw, hlaw.sum_parts, hlaw.restored_between,
    gain_finite (natAbs_sample_lt _) (natAbs_sample_lt _), hexact⟩

/-- A place without horizontal detail. -/
def Detail.uneven : Detail ⟨1, 1⟩ :=
  fun o _ _ => (⟨0, 100, 41⟩ : Details Int16).get o

/-- Its vector turned round, as far as samples reach. -/
def Detail.turned : Detail ⟨1, 1⟩ :=
  fun o _ _ => (⟨-5, -32768, 1⟩ : Details Int16).get o

theorem BandSet.decouple_exact_turned :
    ∃ (reference distorted : BandSet ⟨1, 1⟩) (r a : BandSet ⟨1, 1⟩)
      (u v : Detail ⟨1, 1⟩),
      reference.Shows Detail.uneven ∧ distorted.Shows Detail.turned ∧
      reference.decouple distorted (.zeros _) (.zeros _) = .ok (r, a) ∧
      r.Shows u ∧ a.Shows v ∧
      ((u .horizontal 0 0).toInt = 0 ∧ (v .horizontal 0 0).toInt = -5) ∧
      ((u .vertical 0 0).toInt = 0 ∧ (v .vertical 0 0).toInt = -32768) ∧
      ((u .diagonal 0 0).toInt = 1 ∨ (u .diagonal 0 0).toInt = 2) := by
  obtain ⟨reference, -, hx⟩ := (BandSet.zeros ⟨1, 1⟩).writeDetails_shows
    (Dims.le_refl _) Detail.uneven
  obtain ⟨distorted, -, hy⟩ := (BandSet.zeros ⟨1, 1⟩).writeDetails_shows
    (Dims.le_refl _) Detail.turned
  obtain ⟨r, a, hsplit, u, v, hr, ha, hall⟩ :=
    decouple_exact (.zeros ⟨1, 1⟩) (.zeros ⟨1, 1⟩) hx hy (Dims.le_refl _)
      (Dims.le_refl _)
  obtain ⟨-, hplace⟩ := hall 0 0
  have hturned : ¬Detail.uneven.agree Detail.turned 0 0 := by decide +kernel
  exact ⟨reference, distorted, r, a, u, v, hx, hy, hsplit, hr, ha,
    (hplace .horizontal).1.opposite hturned (by decide),
    (hplace .vertical).1.opposite hturned (by decide),
    ((hplace .diagonal).1.attenuated hturned (by decide) (by decide)).1⟩

/-- The reference 41 and its gain make a little less than the coefficient
one. It is restored all the same, and what is left is rounded up to another
one. -/
example : Split.along 1 (sampleGain 41 1 * .ofInt 41) = ⟨1, 1⟩ := by
  decide +kernel

end AdditiveDetail

/-
The totals of a score.

# Nothing is rounded

A scale contributes two whole numbers, and they are small enough for their
sums to be whole numbers too: no addition on the way to a score rounds.
Only the last step does, the quotient of the two sums (`Score.Totals`).

# Nothing is zeroed

The scored region of a scale is never empty, so each of its three bands
contributes a term of at least one for the area, to the numerator and to
the denominator: three from a scale, twelve from four scales. The noise
floor of a picture of `2 ^ 31` samples is below eleven. So both sums stand
above the floor, whatever the pictures are, and a denominator of zero,
which would score one, does not occur.
-/
import AdditiveDetail.Proofs.Detail.CubeSums
import AdditiveDetail.Proofs.Scoring.History

namespace AdditiveDetail

open Binary

-- ============================================================= the noise floor

/-- The noise floor of a picture of at most `2 ^ 31` samples. -/
theorem Config.noiseFloor_denotes {config : Config}
    (harea : config.dims.area ≤ 2 ^ 31) :
    ∃ l, config.noiseFloor.Denotes l ∧ l ≤ 11 := by
  have hbig {q : ℚ} (h0 : 0 ≤ q) (hq : q ≤ 2 ^ (31 : ℤ)) :
      |q| ≤ Format.binary64.limit := by
    rw [abs_of_nonneg h0]
    exact hq.trans (Format.two_zpow_le_limit (by decide))
  -- a hundredth, rounded, lies below a number of eleven digits
  have hshare : Config.floorShare.Denotes (Format.binary64.nearest (1 / 100)) :=
    round_denotes false 1 (show 0 < 100 by decide) (by norm_num)
      (hbig (by norm_num) (by norm_num))
  have hshare0 := Format.nearest_nonneg (f := .binary64)
    (show (0 : ℚ) ≤ 1 / 100 by norm_num)
  have hshareLe : Format.binary64.nearest (1 / 100) ≤ (1311 : ℤ) * 2 ^ (-17 : ℤ) :=
    Format.nearest_le_of_holds
      (Format.holds_of_le (f := .binary64) (by decide) (by decide))
      (by norm_num)
  generalize Format.binary64.nearest (1 / 100) = share at *
  have harea53 : config.dims.area ≤ 2 ^ 53 := harea.trans (by decide)
  have hcount := ofNat_denotes_self (f := .binary64) harea53 (by decide)
    (by decide)
  have hareaQ : (config.dims.area : ℚ) ≤ 2 ^ 31 := by exact_mod_cast harea
  -- in proportion to the area
  have hproduct0 : 0 ≤ share * config.dims.area :=
    mul_nonneg hshare0 (Nat.cast_nonneg _)
  have hproduct : share * config.dims.area ≤ (21479424 : ℕ) := by
    calc share * config.dims.area
        ≤ (1311 : ℤ) * 2 ^ (-17 : ℤ) * 2 ^ 31 :=
          mul_le_mul hshareLe hareaQ (Nat.cast_nonneg _) (by positivity)
      _ = (21479424 : ℕ) := by norm_num
  have hscaled := hshare.mul hcount
    (hbig hproduct0 (hproduct.trans (by norm_num)))
  have hscaled0 := Format.nearest_nonneg (f := .binary64) hproduct0
  have hscaledLe := Format.nearest_le_of_holds
    (holds_natCast (f := .binary64) (by decide) (by decide)) hproduct
  generalize Format.binary64.nearest (share * config.dims.area) = scaled at *
  -- over the area that the floor refers to
  have hpixels : Config.floorPixels.Denotes ((1920 * 1080 : ℕ) : ℚ) :=
    ofNat_denotes_self (by decide) (by decide) (by decide)
  have hquotient0 : 0 ≤ scaled / (1920 * 1080 : ℕ) :=
    div_nonneg hscaled0 (Nat.cast_nonneg _)
  have hquotient : scaled / (1920 * 1080 : ℕ) ≤ (11 : ℕ) := by
    rw [div_le_iff₀ (by norm_num)]
    exact hscaledLe.trans (by norm_num)
  have hfloor := hscaled.div hpixels (by norm_num)
    (hbig hquotient0 (hquotient.trans (by norm_num)))
  refine ⟨_, hfloor, ?_⟩
  exact_mod_cast Format.nearest_le_of_holds
    (holds_natCast (f := .binary64) (by decide) (by decide)) hquotient

-- ====================================================== what scales contribute

namespace PicturePair

variable {p : PicturePair} {f : FilterBank}

/-- The contributions of the scales are these whole numbers. -/
structure Contributes (p : PicturePair) (f : FilterBank)
    (num den : Fin Dims.scaleCount → ℕ) : Prop where
  num_denotes : ∀ k, (p.contribution f k).num.Denotes (num k)
  den_denotes : ∀ k, (p.contribution f k).den.Denotes (den k)
  three_le_num : ∀ k, 3 ≤ num k
  three_le_den : ∀ k, 3 ≤ den k
  num_le : ∀ k, num k ≤ 2 ^ 28
  den_le : ∀ k, den k ≤ 2 ^ 28

/-- A score keeps what the scales contribute. -/
theorem score_scales (p : PicturePair) (f : FilterBank) (limit : Binary64)
    (k : Fin Dims.scaleCount) :
    (p.score f limit).scales[k] = p.contribution f k := by
  have hscales : (p.score f limit).scales
      = #v[p.contribution f ⟨0, by decide⟩, p.contribution f ⟨1, by decide⟩,
        p.contribution f ⟨2, by decide⟩, p.contribution f ⟨3, by decide⟩] := rfl
  rw [hscales]
  match k with
  | ⟨0, _⟩ => rfl
  | ⟨1, _⟩ => rfl
  | ⟨2, _⟩ => rfl
  | ⟨3, _⟩ => rfl

theorem getElem_scales (p : PicturePair) (f : FilterBank) (limit : Binary64)
    {k : ℕ} (hk : k < Dims.scaleCount) :
    (p.score f limit).scales[k] = p.contribution f ⟨k, hk⟩ :=
  p.score_scales f limit ⟨k, hk⟩

/-- Pairs that contribute the same have the same score. -/
theorem score_congr {q : PicturePair}
    (h : ∀ k, p.contribution f k = q.contribution f k) (limit : Binary64) :
    p.score f limit = q.score f limit := by
  unfold score
  simp only [h]

/-- The bands of a scale are not larger than the picture. -/
theorem area_half_atScale_le (p : PicturePair) (f : FilterBank) (k : ℕ) :
    (p.atScale f k).dims.half.area ≤ p.dims.area := by
  have hle := Dims.le_trans (Dims.half_le (p.atScale f k).nonempty)
    (p.dims_atScale_le f k)
  exact Nat.mul_le_mul (Dims.width_le hle) (Dims.height_le hle)

theorem exists_contributes (p : PicturePair) (f : FilterBank)
    (harea : p.dims.area ≤ 2 ^ 31) : ∃ num den, p.Contributes f num den := by
  have hpooled (k : Fin Dims.scaleCount)
      (x : Detail (p.atScale f k).dims.half) :=
    x.pooled_denotes (Dims.half_nonempty _)
      ((p.area_half_atScale_le f k).trans harea)
  choose num hnum hnum3 hnumLe using
    fun k => hpooled k ((p.atScale f k).masked f k)
  choose den hden hden3 hdenLe using
    fun k => hpooled k (((p.atScale f k).referenceDetail f).visibleAt k)
  exact ⟨num, den, hnum, hden, hnum3, hden3, hnumLe, hdenLe⟩

end PicturePair

/-- A sum over the scales, one after the other. -/
theorem sum_scales (n : Fin Dims.scaleCount → ℕ) :
    ∑ k, n k = n ⟨0, by decide⟩ + n ⟨1, by decide⟩ + n ⟨2, by decide⟩
      + n ⟨3, by decide⟩ := Fin.sum_univ_four n

theorem four_mul_le_sum {n : Fin Dims.scaleCount → ℕ} {m : ℕ}
    (h : ∀ k, m ≤ n k) : 4 * m ≤ ∑ k, n k := by
  have h₀ := h ⟨0, by decide⟩
  have h₁ := h ⟨1, by decide⟩
  have h₂ := h ⟨2, by decide⟩
  have h₃ := h ⟨3, by decide⟩
  rw [sum_scales]
  omega

theorem sum_le_four_mul {n : Fin Dims.scaleCount → ℕ} {m : ℕ}
    (h : ∀ k, n k ≤ m) : ∑ k, n k ≤ 4 * m := by
  have h₀ := h ⟨0, by decide⟩
  have h₁ := h ⟨1, by decide⟩
  have h₂ := h ⟨2, by decide⟩
  have h₃ := h ⟨3, by decide⟩
  rw [sum_scales]
  omega

/-- The contributions of four scales are added without any rounding. -/
theorem total_denotes {x : Fin Dims.scaleCount → Binary64}
    {n : Fin Dims.scaleCount → ℕ} (h : ∀ k, (x k).Denotes (n k))
    (hle : ∀ k, n k ≤ 2 ^ 28) :
    (0 + x ⟨0, by decide⟩ + x ⟨1, by decide⟩ + x ⟨2, by decide⟩
      + x ⟨3, by decide⟩).Denotes (∑ k, n k : ℕ) := by
  have h₀ := hle ⟨0, by decide⟩
  have h₁ := hle ⟨1, by decide⟩
  have h₂ := hle ⟨2, by decide⟩
  have h₃ := hle ⟨3, by decide⟩
  have hzero : (0 : Binary64).Denotes ((0 : ℕ) : ℚ) := by
    rw [Nat.cast_zero]; exact zero_denotes false
  have hbig {n : ℕ} (hn : n ≤ 2 ^ 30) : n ≤ 2 ^ 53 := hn.trans (by decide)
  rw [sum_scales, ← Nat.zero_add (n ⟨0, by decide⟩)]
  exact (((hzero.add_natCast (h _) (hbig (by omega)) (by decide) (by decide)
    ).add_natCast (h _) (hbig (by omega)) (by decide) (by decide)
    ).add_natCast (h _) (hbig (by omega)) (by decide) (by decide)
    ).add_natCast (h _) (hbig (by omega)) (by decide) (by decide)

-- ================================================================== the score

theorem one_denotes : (ofNat 1 : Binary64).Denotes 1 :=
  ofNat_one_denotes (by decide) (by decide)

namespace Score

/-- A score with these whole numbers as contributions of the scales: its
sums are not rounded, and its value is their quotient, rounded once. -/
structure Totals (s : Score) (num den : Fin Dims.scaleCount → ℕ) : Prop where
  scale_num : ∀ k : Fin Dims.scaleCount, s.scales[k].num.Denotes (num k)
  scale_den : ∀ k : Fin Dims.scaleCount, s.scales[k].den.Denotes (den k)
  three_le_num : ∀ k, 3 ≤ num k
  three_le_den : ∀ k, 3 ≤ den k
  num_denotes : s.num.Denotes (∑ k, num k : ℕ)
  den_denotes : s.den.Denotes (∑ k, den k : ℕ)
  value_eq : s.value = s.num / s.den
  value_denotes : s.value.Denotes
    (Format.binary64.nearest ((∑ k, num k : ℕ) / (∑ k, den k : ℕ)))
  value_pos :
    0 < Format.binary64.nearest ((∑ k, num k : ℕ) / (∑ k, den k : ℕ))
  total_le : ∑ k, den k ≤ 2 ^ 30

variable {s : Score} {num den : Fin Dims.scaleCount → ℕ}

/-- Where no scale contributes more to the numerator than to the denominator
the score is at most one. -/
theorem Totals.value_atMost_one (h : s.Totals num den)
    (hle : ∀ k, num k ≤ den k) : s.value.atMost (.ofNat 1) := by
  have hden := four_mul_le_sum h.three_le_den
  have hpos : (0 : ℚ) < (∑ k, den k : ℕ) := Nat.cast_pos.2 (by omega)
  have hsum : ∑ k, num k ≤ ∑ k, den k := Finset.sum_le_sum fun k _ => hle k
  rw [h.value_denotes.atMost_iff one_denotes]
  apply Format.nearest_le_of_holds one_denotes.holds
  rw [div_le_one hpos]
  exact_mod_cast hsum

/-- Where one of them contributes less, it is less than one: the sums are
small, so their quotient is not rounded to one. -/
theorem Totals.value_less_one (h : s.Totals num den)
    (hle : ∀ k, num k ≤ den k) {k : Fin Dims.scaleCount}
    (hlt : num k < den k) : s.value.less (.ofNat 1) := by
  have hden := four_mul_le_sum h.three_le_den
  have hpos : (0 : ℚ) < (∑ k, den k : ℕ) := Nat.cast_pos.2 (by omega)
  have hsum : ∑ k, num k + 1 ≤ ∑ k, den k :=
    Finset.sum_lt_sum (fun k _ => hle k) ⟨k, Finset.mem_univ k, hlt⟩
  have hgap : ((∑ k, num k : ℕ) : ℚ) + 1 ≤ (∑ k, den k : ℕ) := by
    exact_mod_cast hsum
  have htotal : ((∑ k, den k : ℕ) : ℚ) ≤ 2 ^ 30 := by
    exact_mod_cast h.total_le
  have hheld : Format.binary64.Holds ((2 ^ 30 - 1 : ℤ) * 2 ^ (-30 : ℤ)) :=
    Format.holds_of_le (by decide) (by decide)
  rw [h.value_denotes.less_iff one_denotes]
  refine lt_of_le_of_lt (Format.nearest_le_of_holds hheld ?_) (by norm_num)
  rw [div_le_iff₀ hpos, show ((2 ^ 30 - 1 : ℤ) : ℚ) * 2 ^ (-30 : ℤ)
    = 1 - 1 / 2 ^ 30 by norm_num]
  have : ((∑ k, den k : ℕ) : ℚ) / 2 ^ 30 ≤ 1 := by
    rw [div_le_one (by norm_num)]
    exact htotal
  linarith

/-- Sums that are not below the noise floor are kept, and so is their
quotient, as long as the denominator is not zero. -/
theorem fold_eq {num den limit : Binary64} {n m l : ℚ} (hn : num.Denotes n)
    (hm : den.Denotes m) (hl : limit.Denotes l) (hln : l ≤ n) (hlm : l ≤ m)
    (hpos : 0 < m) (scales : Vector ScaleScore Dims.scaleCount) :
    fold num den limit scales = ⟨num / den, num, den, scales⟩ := by
  have hnum : num.less limit = false :=
    Bool.eq_false_iff.2 (mt (hn.less_iff hl).1 (not_lt.2 hln))
  have hden : den.less limit = false :=
    Bool.eq_false_iff.2 (mt (hm.less_iff hl).1 (not_lt.2 hlm))
  have hzero : den.same 0 = false :=
    Bool.eq_false_iff.2 (mt (hm.same_iff (zero_denotes false)).1 hpos.ne')
  simp [fold, hnum, hden, hzero]

/-- The quotient of two sums, rounded once. -/
theorem quotient_denotes {x y : Binary64} {n m : ℕ} (hx : x.Denotes n)
    (hy : y.Denotes m) (hn : 1 ≤ n) (hm : 1 ≤ m) (hn' : n ≤ 2 ^ 30)
    (hm' : m ≤ 2 ^ 30) :
    (x / y).Denotes (Format.binary64.nearest ((n : ℚ) / m)) ∧
      0 < Format.binary64.nearest ((n : ℚ) / m) := by
  have hmpos : (0 : ℚ) < m := Nat.cast_pos.2 hm
  have hn1 : (1 : ℚ) ≤ n := by exact_mod_cast hn
  have hm1 : (1 : ℚ) ≤ m := by exact_mod_cast hm
  have hnQ : (n : ℚ) ≤ 2 ^ (30 : ℤ) := by exact_mod_cast hn'
  have hmQ : (m : ℚ) ≤ 2 ^ (30 : ℤ) := by exact_mod_cast hm'
  have hlow : 2 ^ (-30 : ℤ) ≤ (n : ℚ) / m := by
    rw [le_div_iff₀ hmpos, zpow_neg, inv_mul_le_iff₀ (two_zpow_pos 30)]
    nlinarith
  have hhigh : |(n : ℚ) / m| ≤ Format.binary64.limit := by
    rw [abs_of_pos ((two_zpow_pos _).trans_le hlow)]
    refine le_trans ?_ (Format.two_zpow_le_limit (k := 30) (by decide))
    rw [div_le_iff₀ hmpos]
    exact hnQ.trans (le_mul_of_one_le_right (two_zpow_pos 30).le hm1)
  refine ⟨hx.div hy hmpos.ne' hhigh, ?_⟩
  exact (two_zpow_pos (-30)).trans_le
    (Format.le_nearest_of_holds (Format.holds_two_zpow (by decide)) hlow)

end Score

/-- Under a noise floor that three from every scale reach, the score of a
pair is made of its totals. -/
theorem PicturePair.Contributes.totals {p : PicturePair} {f : FilterBank}
    {num den : Fin Dims.scaleCount → ℕ} (h : p.Contributes f num den)
    {limit : Binary64} {l : ℚ} (hlimit : limit.Denotes l) (hl : l ≤ 12) :
    (p.score f limit).Totals num den := by
  have hnum := total_denotes h.num_denotes h.num_le
  have hden := total_denotes h.den_denotes h.den_le
  have hnum12 := four_mul_le_sum h.three_le_num
  have hden12 := four_mul_le_sum h.three_le_den
  obtain ⟨hvalue, hpos⟩ := Score.quotient_denotes hnum hden (by omega)
    (by omega) (sum_le_four_mul h.num_le) (sum_le_four_mul h.den_le)
  have hnumQ : (12 : ℚ) ≤ (∑ k, num k : ℕ) := by exact_mod_cast hnum12
  have hdenQ : (12 : ℚ) ≤ (∑ k, den k : ℕ) := by exact_mod_cast hden12
  have hfold : p.score f limit = ⟨_, _, _, _⟩ :=
    Score.fold_eq hnum hden hlimit (hl.trans hnumQ) (hl.trans hdenQ)
      (lt_of_lt_of_le (by norm_num) hdenQ) _
  exact {
    scale_num := fun k => p.score_scales f limit k ▸ h.num_denotes k
    scale_den := fun k => p.score_scales f limit k ▸ h.den_denotes k
    three_le_num := h.three_le_num
    three_le_den := h.three_le_den
    num_denotes := by rw [hfold]; exact hnum
    den_denotes := by rw [hfold]; exact hden
    value_eq := by rw [hfold]
    value_denotes := by rw [hfold]; exact hvalue
    value_pos := hpos
    total_le := sum_le_four_mul h.den_le }

-- ================================================================= cube sums

/-- What a scale leaves in the buffers is pooled without an overflow, and
gives what the scale contributes. -/
theorem Bench.Scored.contributionChecked_eq {maxWidth : ℕ} {capacity : Dims}
    {b : Bench maxWidth capacity} {p : PicturePair} {f : FilterBank}
    {scale : Fin Dims.scaleCount} (hb : b.Scored p f scale)
    (harea : p.dims.half.area ≤ 2 ^ 31) :
    b.arena.masked.contributionChecked Pooling.borderFactor
        = some (p.scaleScore f scale).num ∧
      b.arena.visibleReference.contributionChecked Pooling.borderFactor
        = some (p.scaleScore f scale).den := by
  constructor
  · apply BandSet.contributionChecked_eq hb.masked harea
    intro o i j
    exact Detail.natAbs_maskedBy_le
      ((p.restored f).natAbs_visibleAt_le scale o i j)
      (Masking.threshold_nonneg _ _ i j)
  · apply BandSet.contributionChecked_eq hb.visibleReference harea
    exact (p.referenceDetail f).natAbs_visibleAt_le scale

-- =================================================================== any pair

namespace Scorer

/-- TOTALS: a scorer with any history scores every accepted pair of planes,
and the scales contribute whole numbers, three or more each. Numerator and
denominator are their sums, as numbers and without any rounding; neither
is below the noise floor, the denominator is not zero, and the score is
their quotient, rounded once, finite and above zero. At every scale a
machine that sums the cubes in words of 64 bits does not stop, and pools
the same contributions. -/
theorem process_totals (config : Config) (hdims : config.dims.Nonempty)
    (harea : config.dims.width * config.dims.height ≤ 2 ^ 31) :
    ∃ fresh, allocate config = .ok fresh ∧
    ∀ (history : List (Plane × Plane)) (reference distorted : Plane),
    checkPlane config reference = .ok () →
    checkPlane config distorted = .ok () →
    (∃ (score : Score) (num den : Fin Dims.scaleCount → ℕ),
      ((fresh.after history).process reference distorted).1 = .ok score ∧
      score.Totals num den ∧
      12 ≤ ∑ k, num k ∧ 12 ≤ ∑ k, den k ∧
      score.num.less config.noiseFloor = false ∧
      score.den.less config.noiseFloor = false ∧
      score.den.same 0 = false) ∧
    ∀ k < Dims.scaleCount, ∃ contribution b,
      (fresh.after history).bench.throughScale reference.image
        distorted.image k = .ok (contribution, b) ∧
      b.arena.masked.contributionChecked Pooling.borderFactor
        = some contribution.num ∧
      b.arena.visibleReference.contributionChecked Pooling.borderFactor
        = some contribution.den := by
  obtain ⟨fresh, hfresh⟩ := exists_allocate hdims harea
  refine ⟨fresh, hfresh, fun history reference distorted hr hd => ?_⟩
  have hready := (allocate_ready hfresh).after history
  have hsize := dims_of_checkPlane hr
  have h := hsize.trans (dims_of_checkPlane hd).symm
  obtain ⟨p, hp⟩ : ∃ p, p = PicturePair.ofPlanes reference distorted h :=
    ⟨_, rfl⟩
  have hparea : p.dims.area ≤ 2 ^ 31 := by
    rw [hp]
    show reference.dims.area ≤ 2 ^ 31
    rw [hsize]
    exact harea
  constructor
  · obtain ⟨s', hprocess, -⟩ := hready.process_accepted hr hd h
    obtain ⟨l, hlimit, hl⟩ := Config.noiseFloor_denotes harea
    obtain ⟨num, den, hcontributes⟩ :=
      p.exists_contributes FilterBank.daubechies hparea
    have htotals := hcontributes.totals hlimit (hl.trans (by norm_num))
    rw [hp] at htotals
    have hnum := four_mul_le_sum htotals.three_le_num
    have hden := four_mul_le_sum htotals.three_le_den
    have hkept {x : Binary64} {n : ℕ} (hx : x.Denotes n) (hn : 12 ≤ n) :
        x.less config.noiseFloor = false := by
      have hnQ : (12 : ℚ) ≤ n := by exact_mod_cast hn
      have hle : l ≤ n := by linarith
      exact Bool.eq_false_iff.2 (mt (hx.less_iff hlimit).1 (not_lt.2 hle))
    refine ⟨_, num, den, congrArg Prod.fst hprocess, htotals, hnum, hden,
      hkept htotals.num_denotes hnum, hkept htotals.den_denotes hden, ?_⟩
    refine Bool.eq_false_iff.2
      (mt (htotals.den_denotes.same_iff (zero_denotes false)).1 ?_)
    exact Nat.cast_ne_zero.2 (by omega)
  · intro k hk
    obtain ⟨b, hb, hscored⟩ := hready.throughScale_scored hr h hk
    refine ⟨_, b, hb, hscored.contributionChecked_eq ?_⟩
    rw [← hp]
    exact (p.area_half_atScale_le _ k).trans hparea

theorem process_totals_odd : ∃ fresh, allocate oddConfig = .ok fresh ∧
    ∃ (score : Score) (num den : Fin Dims.scaleCount → ℕ),
      ((fresh.after oddHistory).process (oddPlane 0 255) (oddPlane 20 30)).1
        = .ok score ∧
      score.Totals num den ∧ 12 ≤ ∑ k, num k ∧ 12 ≤ ∑ k, den k := by
  obtain ⟨fresh, hfresh, h⟩ := process_totals oddConfig (by decide) (by decide)
  obtain ⟨⟨score, num, den, hscore, htotals, hnum, hden, -⟩, -⟩ :=
    h oddHistory (oddPlane 0 255) (oddPlane 20 30) rfl rfl
  exact ⟨fresh, hfresh, score, num, den, hscore, htotals, hnum, hden⟩

end Scorer

end AdditiveDetail

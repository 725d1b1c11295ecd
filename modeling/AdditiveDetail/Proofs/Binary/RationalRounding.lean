/-
Rounding as a function of rational numbers.

`nearestWhole` is the integer nearest to a rational number, and `nearest`
the number of a format nearest to it: the nearest multiple of the last
place that the format keeps. The greatest exponent plays no part here, so
`nearest` is total; where it stays within the range of the format it is
what the operations compute.

# What is known of it

Rounding keeps the order (`nearest_mono`) and the sign (`nearest_neg`),
and it leaves alone what the format holds already (`nearest_of_holds`).
Together they carry every bound by a number of the format through a
rounding, without a word about errors.
-/
import Mathlib.Data.Int.Log
import Mathlib.Data.Rat.Floor
import AdditiveDetail.Proofs.Binary.Values

namespace AdditiveDetail

-- ======================================================= the nearest integer

/-- The integer nearest to a number; of two equally near the even one. -/
def nearestWhole (x : ℚ) : ℤ :=
  if Int.fract x < 1 / 2 then ⌊x⌋
  else if 1 / 2 < Int.fract x then ⌊x⌋ + 1
  else ⌊x⌋ + ⌊x⌋ % 2

theorem nearestWhole_error (x : ℚ) : |(nearestWhole x : ℚ) - x| ≤ 1 / 2 := by
  have hx : x = ⌊x⌋ + Int.fract x := (Int.floor_add_fract x).symm
  have hnn := Int.fract_nonneg x
  have hlt := Int.fract_lt_one x
  have hcases : (nearestWhole x = ⌊x⌋ ∧ Int.fract x ≤ 1 / 2) ∨
      (nearestWhole x = ⌊x⌋ + 1 ∧ 1 / 2 ≤ Int.fract x) := by
    unfold nearestWhole
    split
    · next h => exact .inl ⟨rfl, h.le⟩
    · next h =>
        split
        · next h' => exact .inr ⟨rfl, h'.le⟩
        · next h' =>
            -- in the middle either neighbour will do
            rcases Int.emod_two_eq_zero_or_one ⌊x⌋ with he | he
            · exact .inl ⟨by rw [he, add_zero], not_lt.1 h'⟩
            · exact .inr ⟨by rw [he], not_lt.1 h⟩
  rw [abs_le]
  rcases hcases with ⟨he, hf⟩ | ⟨he, hf⟩ <;> rw [he] <;> push_cast <;>
    constructor <;> linarith

/-- Half a unit apart is in the middle, and there the even neighbour is
taken. -/
theorem even_nearestWhole_of_tie {x : ℚ}
    (h : |(nearestWhole x : ℚ) - x| = 1 / 2) : Even (nearestWhole x) := by
  have hx : x = ⌊x⌋ + Int.fract x := (Int.floor_add_fract x).symm
  have hnn := Int.fract_nonneg x
  have hlt := Int.fract_lt_one x
  rcases lt_trichotomy (Int.fract x) (1 / 2) with hlow | htie | hhigh
  · have hfloor : nearestWhole x = ⌊x⌋ := if_pos hlow
    rw [hfloor, abs_sub_comm, abs_of_nonneg (by linarith)] at h
    linarith
  · unfold nearestWhole
    rw [if_neg htie.not_lt, if_neg htie.symm.not_lt, Int.even_iff]
    omega
  · have hceil : nearestWhole x = ⌊x⌋ + 1 := by
      unfold nearestWhole
      rw [if_neg hhigh.not_gt, if_pos hhigh]
    rw [hceil, abs_of_nonneg (by push_cast; linarith)] at h
    push_cast at h
    linarith

/-- Less than a half apart means nearest. -/
theorem nearestWhole_eq {x : ℚ} {m : ℤ} (h : |x - m| < 1 / 2) :
    nearestWhole x = m := by
  have herror := abs_le.1 (nearestWhole_error x)
  have hclose := abs_lt.1 h
  have hlt : |((nearestWhole x - m : ℤ) : ℚ)| < 1 := by
    push_cast
    exact abs_lt.2 ⟨by linarith, by linarith⟩
  have hzero := Int.abs_lt_one_iff.1 (by exact_mod_cast hlt)
  omega

/-- Two numbers in order cannot be rounded past each other: both would have
to stand in the same middle. -/
theorem nearestWhole_mono {x y : ℚ} (h : x ≤ y) :
    nearestWhole x ≤ nearestWhole y := by
  by_contra hlt
  have hx := abs_le.1 (nearestWhole_error x)
  have hy := abs_le.1 (nearestWhole_error y)
  have hstep : (nearestWhole y : ℚ) + 1 ≤ nearestWhole x := by
    exact_mod_cast Int.not_le.1 hlt
  obtain rfl : x = y := by linarith
  exact hlt le_rfl

theorem nearestWhole_intCast (n : ℤ) : nearestWhole n = n := by
  simp [nearestWhole]

theorem nearestWhole_nonneg {x : ℚ} (h : 0 ≤ x) : 0 ≤ nearestWhole x := by
  rw [← nearestWhole_intCast 0]
  exact nearestWhole_mono (by exact_mod_cast h)

theorem nearestWhole_neg (x : ℚ) : nearestWhole (-x) = -nearestWhole x := by
  rcases eq_or_ne (Int.fract x) 0 with h0 | h0
  · obtain ⟨n, rfl⟩ : ∃ n : ℤ, x = n := ⟨⌊x⌋, by
      rw [← sub_eq_zero]; exact h0⟩
    rw [← Int.cast_neg, nearestWhole_intCast, nearestWhole_intCast]
  · have hfract : Int.fract (-x) = 1 - Int.fract x := Int.fract_neg h0
    have hceil : ⌈x⌉ = ⌊x⌋ + 1 := by
      rw [Int.ceil_eq_iff]
      have hlt := Int.fract_lt_one x
      have hpos := lt_of_le_of_ne (Int.fract_nonneg x) h0.symm
      have hx := Int.floor_add_fract x
      push_cast
      constructor <;> linarith
    have hfloor : ⌊-x⌋ = -⌊x⌋ - 1 := by
      rw [Int.floor_neg, hceil]; ring
    unfold nearestWhole
    rw [hfract, hfloor]
    rcases lt_trichotomy (Int.fract x) (1 / 2) with h | h | h
    · rw [if_neg (by linarith), if_pos (by linarith), if_pos h]
      ring
    · rw [if_neg (by linarith), if_neg (by linarith), if_neg (by linarith),
        if_neg (by linarith)]
      omega
    · rw [if_pos (by linarith), if_neg (by linarith), if_pos h]
      ring

/-- The rounding of ratios of naturals is the same one. -/
theorem nearestWhole_ratio (num : ℕ) {den : ℕ} (hden : 0 < den) :
    nearestWhole (num / den) = nearestEven num den := by
  have hd : (0 : ℚ) < den := by exact_mod_cast hden
  have hfloor : ⌊(num / den : ℚ)⌋ = ((num / den : ℕ) : ℤ) := by
    rw [Rat.floor_natCast_div_natCast]
    norm_cast
  have hmod : ((num / den : ℕ) : ℚ) * den + (num % den : ℕ) = num := by
    exact_mod_cast Nat.div_add_mod' num den
  have hfract : Int.fract (num / den : ℚ) = ((num % den : ℕ) : ℚ) / den := by
    rw [Int.fract, hfloor, Int.cast_natCast, eq_div_iff hd.ne', sub_mul,
      div_mul_cancel₀ _ hd.ne']
    linarith
  have hlow : Int.fract (num / den : ℚ) < 1 / 2 ↔ 2 * (num % den) < den := by
    rw [hfract, div_lt_iff₀ hd, ← Nat.cast_lt (α := ℚ)]
    push_cast
    constructor <;> intro h <;> linarith
  have hhigh : 1 / 2 < Int.fract (num / den : ℚ) ↔ den < 2 * (num % den) := by
    rw [hfract, lt_div_iff₀ hd, ← Nat.cast_lt (α := ℚ)]
    push_cast
    constructor <;> intro h <;> linarith
  simp only [nearestWhole, nearestEven, nearer, hlow, hhigh, hfloor]
  split
  · rfl
  · split <;> push_cast <;> rfl

namespace Format

variable (f : Format)

-- ============================================================= what it holds

/-- The last place that is kept of a number. -/
def placeOf (x : ℚ) : ℤ := f.lastPlace (Int.log 2 |x|)

/-- The number of the format nearest to a number, had the format no
greatest exponent. -/
def nearest (x : ℚ) : ℚ := nearestWhole (x / 2 ^ f.placeOf x) * 2 ^ f.placeOf x

/-- Whether a number has no more digits than the format keeps. -/
def Holds (x : ℚ) : Prop :=
  ∃ m e : ℤ, |m| < 2 ^ f.precision ∧ f.minExponent ≤ e ∧ x = m * 2 ^ e

variable {f}

theorem minExponent_le_placeOf (x : ℚ) : f.minExponent ≤ f.placeOf x :=
  le_max_left ..

theorem one_le_precision : 1 ≤ f.precision :=
  le_trans one_le_two f.two_le_precision

/-- The places above the last one are as many as the mantissa has. -/
theorem abs_lt_place (x : ℚ) :
    |x| < 2 ^ f.precision * 2 ^ f.placeOf x := by
  have hlog : |x| < 2 ^ (Int.log 2 |x| + 1) := by
    exact_mod_cast Int.lt_zpow_succ_log_self one_lt_two |x|
  rw [← zpow_natCast, ← two_zpow_add]
  refine hlog.trans_le (two_zpow_le ?_)
  have := le_max_right f.minExponent (Int.log 2 |x| - (f.precision - 1))
  unfold placeOf lastPlace
  omega

/-- A number below a power of two has its place below that power, as far as
the format reaches. -/
theorem placeOf_le {x : ℚ} (hx : x ≠ 0) {k : ℤ} (h : |x| < 2 ^ k)
    (hmin : f.minExponent ≤ k - f.precision) : f.placeOf x ≤ k - f.precision := by
  have hlog : (2 : ℚ) ^ Int.log 2 |x| ≤ |x| := by
    exact_mod_cast Int.zpow_log_le_self one_lt_two (abs_pos.2 hx)
  have := lt_of_two_zpow_lt (hlog.trans_lt h)
  unfold placeOf lastPlace
  omega

/-- A greater number has no lower place. -/
theorem placeOf_mono {x y : ℚ} (hx : 0 < x) (h : x ≤ y) :
    f.placeOf x ≤ f.placeOf y := by
  have hlog := Int.log_mono_right (b := 2) hx h
  unfold placeOf lastPlace
  rw [abs_of_pos hx, abs_of_pos (hx.trans_le h)]
  omega

theorem holds_of_le {m e : ℤ} (hm : |m| ≤ 2 ^ f.precision)
    (he : f.minExponent ≤ e) : f.Holds (m * 2 ^ e) := by
  rcases hm.lt_or_eq with h | h
  · exact ⟨m, e, h, he, rfl⟩
  · have hp := f.two_le_precision
    obtain ⟨p, hp'⟩ := Nat.exists_eq_add_of_le f.one_le_precision
    have hpow : (2 : ℤ) ^ f.precision = 2 * 2 ^ p := by
      rw [hp', pow_add, pow_one]
    have hone : (0 : ℤ) < 2 ^ p := by positivity
    have hlt : (2 : ℤ) ^ p < 2 ^ f.precision := by omega
    have hscale : (2 : ℚ) ^ (e + 1) = 2 * 2 ^ e := by
      rw [zpow_add_one₀ two_ne_zero]; ring
    rcases abs_eq_abs.1 (h.trans (abs_of_pos (by omega)).symm) with rfl | rfl
    · refine ⟨2 ^ p, e + 1, by rwa [abs_of_pos hone], by omega, ?_⟩
      rw [hscale, hpow]; push_cast; ring
    · refine ⟨-2 ^ p, e + 1, by rwa [abs_neg, abs_of_pos hone], by omega, ?_⟩
      rw [hscale, hpow]; push_cast; ring

theorem holds_intCast {n : ℤ} (hn : |n| ≤ 2 ^ f.precision)
    (hmin : f.minExponent ≤ 0) : f.Holds n := by
  simpa using holds_of_le hn hmin

theorem holds_two_zpow {k : ℤ} (h : f.minExponent ≤ k) : f.Holds (2 ^ k) := by
  have hone : |(1 : ℤ)| ≤ 2 ^ f.precision := by
    rw [abs_one]; exact one_le_pow₀ one_le_two
  simpa using holds_of_le hone h

theorem Holds.neg {x : ℚ} (h : f.Holds x) : f.Holds (-x) := by
  obtain ⟨m, e, hm, he, rfl⟩ := h
  exact ⟨-m, e, by rwa [abs_neg], he, by push_cast; ring⟩

-- ================================================================== rounding

@[simp]
theorem nearest_zero : f.nearest 0 = 0 := by
  simp [nearest, nearestWhole]

theorem nearest_neg (x : ℚ) : f.nearest (-x) = -f.nearest x := by
  have hplace : f.placeOf (-x) = f.placeOf x := by
    unfold placeOf; rw [abs_neg]
  unfold nearest
  rw [hplace, neg_div, nearestWhole_neg]
  push_cast
  ring

theorem two_zpow_eq_multiple {place k : ℤ} (h : place ≤ k) :
    ∃ j : ℕ, (2 : ℚ) ^ k = ((2 ^ j : ℤ) : ℚ) * 2 ^ place := by
  obtain ⟨j, hj⟩ := Int.eq_ofNat_of_zero_le (Int.sub_nonneg_of_le h)
  refine ⟨j, ?_⟩
  push_cast
  rw [← zpow_natCast, ← two_zpow_add]
  congr 1
  omega

/-- A multiple of the last place is left alone. -/
theorem nearest_of_multiple {x : ℚ} {m : ℤ} (h : x = m * 2 ^ f.placeOf x) :
    f.nearest x = x := by
  have hdiv : x / 2 ^ f.placeOf x = m := by
    rw [div_eq_iff (two_zpow_pos _).ne']; exact h
  unfold nearest
  rw [hdiv, nearestWhole_intCast]
  exact h.symm

theorem nearest_of_holds {x : ℚ} (h : f.Holds x) : f.nearest x = x := by
  obtain ⟨m, e, hm, he, rfl⟩ := h
  rcases eq_or_ne m 0 with rfl | hm0
  · simp
  · have hp := two_zpow_pos e
    have hx : (m : ℚ) * 2 ^ e ≠ 0 :=
      mul_ne_zero (Int.cast_ne_zero.2 hm0) hp.ne'
    have habs : |(m : ℚ) * 2 ^ e| < 2 ^ (e + f.precision) := by
      have hm' : |(m : ℚ)| < 2 ^ f.precision := by exact_mod_cast hm
      rw [abs_mul, abs_of_pos hp, two_zpow_add, zpow_natCast, mul_comm]
      exact mul_lt_mul_of_pos_left hm' hp
    have hle : f.placeOf (m * 2 ^ e) ≤ e := by
      have := placeOf_le (f := f) hx habs (by omega)
      omega
    obtain ⟨j, hj⟩ := two_zpow_eq_multiple hle
    refine nearest_of_multiple (m := m * 2 ^ j) ?_
    rw [Int.cast_mul, mul_assoc, ← hj]

theorem nearest_error (x : ℚ) :
    |f.nearest x - x| ≤ 2 ^ f.placeOf x / 2 := by
  have hp := two_zpow_pos (f.placeOf x)
  have hx : x = x / 2 ^ f.placeOf x * 2 ^ f.placeOf x := by
    rw [div_mul_cancel₀ _ hp.ne']
  calc |f.nearest x - x|
      = |(nearestWhole (x / 2 ^ f.placeOf x) : ℚ) - x / 2 ^ f.placeOf x|
          * 2 ^ f.placeOf x := by
        rw [← abs_of_pos hp, ← abs_mul, abs_of_pos hp, sub_mul, ← hx]
        rfl
    _ ≤ 1 / 2 * 2 ^ f.placeOf x :=
        mul_le_mul_of_nonneg_right (nearestWhole_error _) hp.le
    _ = _ := by ring

theorem nearest_nonneg {x : ℚ} (h : 0 ≤ x) : 0 ≤ f.nearest x := by
  have hp := two_zpow_pos (f.placeOf x)
  have hwhole := nearestWhole_nonneg (div_nonneg h hp.le)
  exact mul_nonneg (Int.cast_nonneg hwhole) hp.le

/-- Numbers of the same last place keep their order. -/
theorem nearest_le_of_placeOf_eq {x y : ℚ} (h : x ≤ y)
    (hplace : f.placeOf x = f.placeOf y) : f.nearest x ≤ f.nearest y := by
  have hp := two_zpow_pos (f.placeOf y)
  unfold nearest
  rw [hplace]
  refine mul_le_mul_of_nonneg_right (Int.cast_le.2 ?_) hp.le
  exact nearestWhole_mono (div_le_div_of_nonneg_right h hp.le)

/-- A power of two that is a multiple of the last place bounds the rounded
number where it bounds the number. -/
theorem nearest_le_two_zpow {x : ℚ} {k : ℤ} (hk : f.placeOf x ≤ k)
    (h : x ≤ 2 ^ k) : f.nearest x ≤ 2 ^ k := by
  have hp := two_zpow_pos (f.placeOf x)
  obtain ⟨j, hj⟩ := two_zpow_eq_multiple hk
  rw [hj] at h ⊢
  refine mul_le_mul_of_nonneg_right (Int.cast_le.2 ?_) hp.le
  rw [← nearestWhole_intCast (2 ^ j)]
  exact nearestWhole_mono ((div_le_iff₀ hp).2 h)

theorem two_zpow_le_nearest {x : ℚ} {k : ℤ} (hk : f.placeOf x ≤ k)
    (h : 2 ^ k ≤ x) : 2 ^ k ≤ f.nearest x := by
  have hp := two_zpow_pos (f.placeOf x)
  obtain ⟨j, hj⟩ := two_zpow_eq_multiple hk
  rw [hj] at h ⊢
  refine mul_le_mul_of_nonneg_right (Int.cast_le.2 ?_) hp.le
  rw [← nearestWhole_intCast (2 ^ j)]
  exact nearestWhole_mono ((le_div_iff₀ hp).2 h)

/-- Between numbers of different last places stands a power of two. -/
theorem nearest_le_of_placeOf_lt {x y : ℚ} (hx : 0 < x)
    (hplace : f.placeOf x < f.placeOf y) (hy : 0 < y) :
    f.nearest x ≤ f.nearest y := by
  have hxlog : x < 2 ^ (Int.log 2 |x| + 1) := by
    rw [abs_of_pos hx]
    exact_mod_cast Int.lt_zpow_succ_log_self one_lt_two x
  have hylog : (2 : ℚ) ^ Int.log 2 |y| ≤ y := by
    rw [abs_of_pos hy]
    exact_mod_cast Int.zpow_log_le_self one_lt_two hy
  have hp := f.two_le_precision
  have hmin := minExponent_le_placeOf (f := f) x
  obtain ⟨hlog, hyplace⟩ : Int.log 2 |x| < Int.log 2 |y| ∧
      f.placeOf y ≤ Int.log 2 |y| := by
    unfold placeOf lastPlace at *
    omega
  have hle : x ≤ 2 ^ Int.log 2 |y| := hxlog.le.trans (two_zpow_le hlog)
  exact (nearest_le_two_zpow (hplace.le.trans hyplace) hle).trans
    (two_zpow_le_nearest hyplace hylog)

/-- Rounding keeps the order. -/
theorem nearest_mono {x y : ℚ} (h : x ≤ y) : f.nearest x ≤ f.nearest y := by
  have hpositive {x y : ℚ} (hx : 0 < x) (h : x ≤ y) :
      f.nearest x ≤ f.nearest y := by
    rcases (placeOf_mono (f := f) hx h).lt_or_eq with hlt | heq
    · exact nearest_le_of_placeOf_lt hx hlt (hx.trans_le h)
    · exact nearest_le_of_placeOf_eq h heq
  rcases lt_or_ge 0 x with hx | hx
  · exact hpositive hx h
  · rcases lt_or_ge y 0 with hy | hy
    · have := hpositive (neg_pos.2 hy) (neg_le_neg h)
      rw [nearest_neg, nearest_neg] at this
      exact neg_le_neg_iff.1 this
    · have hneg := nearest_nonneg (f := f) (neg_nonneg.2 hx)
      rw [nearest_neg] at hneg
      exact (neg_nonneg.1 hneg).trans (nearest_nonneg hy)

theorem nearest_le_of_holds {x y : ℚ} (hy : f.Holds y) (h : x ≤ y) :
    f.nearest x ≤ y := by
  rw [← nearest_of_holds hy]
  exact nearest_mono h

theorem le_nearest_of_holds {x y : ℚ} (hy : f.Holds y) (h : y ≤ x) :
    y ≤ f.nearest x := by
  rw [← nearest_of_holds hy]
  exact nearest_mono h

/-- Numbers of the format bound the magnitude too. -/
theorem abs_nearest_le_of_holds {x y : ℚ} (hy : f.Holds y) (h : |x| ≤ y) :
    |f.nearest x| ≤ y :=
  abs_le.2 ⟨le_nearest_of_holds hy.neg (abs_le.1 h).1,
    nearest_le_of_holds hy (abs_le.1 h).2⟩

theorem le_abs_nearest_of_holds {x y : ℚ} (hy : f.Holds y) (h : y ≤ |x|) :
    y ≤ |f.nearest x| := by
  rcases le_abs.1 h with h | h
  · exact (le_nearest_of_holds hy h).trans (le_abs_self _)
  · have hneg := le_nearest_of_holds hy h
    rw [nearest_neg] at hneg
    exact hneg.trans (neg_le_abs _)

/-- What is not too small is not rounded to zero, and keeps its sign. -/
theorem nearest_ne_zero {x y : ℚ} (hy : f.Holds y) (hy0 : 0 < y)
    (h : y ≤ |x|) : f.nearest x ≠ 0 :=
  abs_pos.1 (hy0.trans_le (le_abs_nearest_of_holds hy h))

theorem nearest_neg_iff {x y : ℚ} (hy : f.Holds y) (hy0 : 0 < y)
    (h : y ≤ |x|) : f.nearest x < 0 ↔ x < 0 := by
  constructor
  · exact fun hlt => not_le.1 fun hx => hlt.not_ge (nearest_nonneg hx)
  · intro hx
    have hle := nearest_mono (f := f) hx.le
    rw [nearest_zero] at hle
    exact lt_of_le_of_ne hle (nearest_ne_zero hy hy0 h)

/-- What a number is rounded to, in units of its last place, has no more
digits than the format keeps, up to the least number with one digit
more. -/
theorem abs_nearestWhole_le (x : ℚ) :
    |nearestWhole (x / 2 ^ f.placeOf x)| ≤ 2 ^ f.precision := by
  have hp := two_zpow_pos (f.placeOf x)
  have habs : |x / 2 ^ f.placeOf x| ≤ ((2 ^ f.precision : ℤ) : ℚ) := by
    rw [abs_div, abs_of_pos hp, div_le_iff₀ hp]
    push_cast
    exact (abs_lt_place x).le
  rw [abs_le, ← Int.cast_neg] at habs
  have hlo := nearestWhole_mono habs.1
  have hhi := nearestWhole_mono habs.2
  rw [nearestWhole_intCast] at hlo hhi
  exact abs_le.2 ⟨hlo, hhi⟩

/-- A rounded number is one of the format. -/
theorem holds_nearest (x : ℚ) : f.Holds (f.nearest x) :=
  holds_of_le (abs_nearestWhole_le x) (minExponent_le_placeOf x)

end Format

end AdditiveDetail

/-
What finite numbers denote, and what the operations do to it.

`x.Denotes q` says that `x` is finite and has the value `q`. Each
operation then has one lemma: on numbers that denote, it denotes the
ROUNDED exact result (`nearest`), provided that this result stays within
the limit of the format. Comparisons and the ways out of the format read
the value alone.

The limit is a power of two, one below the overflow of the format, so
that no lemma has to look at the last mantissa of all.
-/
import AdditiveDetail.Binary.Integral
import AdditiveDetail.Proofs.Binary.Values
import AdditiveDetail.Proofs.Binary.RationalRounding

namespace AdditiveDetail

namespace Format

/-- A bound within which rounding does not overflow. -/
def limit (f : Format) : ℚ := 2 ^ (f.maxExponent + f.precision - 1)

theorem limit_pos (f : Format) : 0 < f.limit := two_zpow_pos _

theorem two_zpow_le_limit {f : Format} {k : ℤ}
    (h : k ≤ f.maxExponent + f.precision - 1) : 2 ^ k ≤ f.limit :=
  two_zpow_le h

theorem holds_limit (f : Format) : f.Holds f.limit := by
  have hp := f.one_le_precision
  have hm := f.min_le_max
  exact holds_two_zpow (by omega)

end Format

namespace Binary

variable {f g : Format}

/-- A finite number of the given value. -/
def Denotes : Binary f → ℚ → Prop
  | .finite s m e _, q => value s m e = q
  | .infinity _, _ => False
  | .nan, _ => False

theorem denotes_finite (s : Bool) (m : ℕ) (e : ℤ) (h : f.Canonical m e) :
    (finite s m e h).Denotes (value s m e) := rfl

/-- A number that denotes has parts. -/
theorem Denotes.exists_finite {x : Binary f} {q : ℚ} (h : x.Denotes q) :
    ∃ s m e j, x = .finite s m e j ∧ q = value s m e := by
  cases x with
  | nan => exact h.elim
  | infinity => exact h.elim
  | finite s m e j => exact ⟨s, m, e, j, rfl, h.symm⟩

theorem Denotes.unique {x : Binary f} {q r : ℚ} (hq : x.Denotes q)
    (hr : x.Denotes r) : q = r := by
  obtain ⟨s, m, e, j, rfl, rfl⟩ := hq.exists_finite
  exact hr

-- ============================================================= signed values

theorem value_not (s : Bool) (m : ℕ) (e : ℤ) :
    value (!s) m e = -value s m e := by
  cases s <;> simp [value]

theorem abs_value (s : Bool) (m : ℕ) (e : ℤ) :
    |value s m e| = m * 2 ^ e := by
  have h : (0 : ℚ) ≤ m * 2 ^ e := by positivity
  cases s with
  | false => rw [value_false, abs_of_nonneg h]
  | true => rw [← Bool.not_false, value_not, value_false, abs_neg,
      abs_of_nonneg h]

theorem value_mul (s t : Bool) (m n : ℕ) (e d : ℤ) :
    value s m e * value t n d = value (s ^^ t) (m * n) (e + d) := by
  simp only [value, two_zpow_add]
  cases s <;> cases t <;> simp <;> ring

/-- An integer in units of a power of two. -/
theorem value_natAbs (i : ℤ) (e : ℤ) :
    value (decide (i < 0)) i.natAbs e = i * 2 ^ e := by
  rcases lt_or_ge i 0 with h | h
  · simp [value, h, abs_of_neg]
  · simp [value, not_lt.2 h, abs_of_nonneg h]

theorem value_eq_zero_iff {s : Bool} {m : ℕ} {e : ℤ} :
    value s m e = 0 ↔ m = 0 := by
  rw [← abs_eq_zero, abs_value]
  have := (two_zpow_pos e).ne'
  simp [this]

/-- Signs of numbers that are not zero are told apart by their values. -/
theorem value_neg_iff {s : Bool} {m : ℕ} {e : ℤ} (hm : 0 < m) :
    value s m e < 0 ↔ s = true := by
  have h : (0 : ℚ) < m * 2 ^ e := by positivity
  cases s with
  | false => simp [value_false, h.le]
  | true => rw [← Bool.not_false, value_not, value_false]; simpa using h

/-- There is one way only to write a number that is not zero. -/
theorem Denotes.eq_of_ne_zero {x y : Binary f} {q : ℚ} (hx : x.Denotes q)
    (hy : y.Denotes q) (hq : q ≠ 0) : x = y := by
  obtain ⟨s, m, e, h, rfl, rfl⟩ := hx.exists_finite
  obtain ⟨t, n, d, j, rfl, hval⟩ := hy.exists_finite
  have hm : 0 < m := by
    have := mt value_eq_zero_iff.2 hq; omega
  have hn : 0 < n := by
    have := mt value_eq_zero_iff.2 (hval ▸ hq); omega
  have hst : s = t := by
    have hs := value_neg_iff (s := s) (e := e) hm
    have ht := value_neg_iff (s := t) (e := d) hn
    rw [hval] at hs
    exact Bool.eq_iff_iff.2 (hs.symm.trans ht)
  have habs : (m : ℚ) * 2 ^ e = n * 2 ^ d := by
    rw [← abs_value s, ← abs_value t, hval]
  rw [hst]
  exact finite_eq_of_value_eq habs

/-- What a number denotes has no more digits than the format keeps. -/
theorem Denotes.holds {x : Binary f} {q : ℚ} (h : x.Denotes q) :
    f.Holds q := by
  obtain ⟨s, m, e, j, rfl, rfl⟩ := h.exists_finite
  have hm : |(m : ℤ)| < 2 ^ f.precision := by
    rw [Nat.abs_cast]; exact_mod_cast j.lt_limit
  have hpos : f.Holds (m * 2 ^ e) :=
    ⟨m, e, hm, j.min_le, by push_cast; rfl⟩
  cases s with
  | false => rwa [value_false]
  | true =>
      rw [← Bool.not_false, value_not, value_false]
      exact hpos.neg

-- ================================================================== rounding

/-- One digit too many is a power of two with one digit less. -/
theorem value_two_pow (s : Bool) (place : ℤ) :
    value s (2 ^ f.precision) place
      = value s (2 ^ (f.precision - 1)) (place + 1) := by
  obtain ⟨p, hp⟩ := Nat.exists_eq_add_of_le f.one_le_precision
  unfold value
  rw [hp, Nat.add_sub_cancel_left, zpow_add_one₀ two_ne_zero]
  push_cast
  ring

/-- What is carried keeps its value, or it is too great. -/
theorem carry_denotes_or (s : Bool) {m : ℕ} (hle : m ≤ 2 ^ f.precision)
    (place : ℤ) :
    (carry s m place : Binary f).Denotes (value s m place) ∨
      (carry s m place : Binary f) = infinity s := by
  have hparts {n : ℕ} (hn : n < 2 ^ f.precision) (e : ℤ) :
      (carry s n e : Binary f).Denotes (value s n e) ∨
        (carry s n e : Binary f) = infinity s := by
    have hshift := (Format.shiftRight_eq_zero_iff n f.precision).2 hn
    simp only [carry, hshift, if_true, ofParts]
    split
    · exact .inl (denotes_finite ..)
    · exact .inr rfl
  rcases hle.lt_or_eq with hlt | rfl
  · exact hparts hlt place
  · have hp := f.two_le_precision
    rw [carry_two_pow, value_two_pow]
    exact hparts (Nat.pow_lt_pow_right one_lt_two (by omega)) _

/-- What is carried keeps its value, within the limit. -/
theorem carry_denotes (s : Bool) {m : ℕ} {place : ℤ}
    (hmin : f.minExponent ≤ place) (hle : m ≤ 2 ^ f.precision)
    (hfull : 2 ^ (f.precision - 1) ≤ m ∨ place = f.minExponent)
    (hlimit : (m : ℚ) * 2 ^ place ≤ f.limit) :
    (carry s m place : Binary f).Denotes (value s m place) := by
  obtain ⟨p, hp⟩ := Nat.exists_eq_add_of_le f.one_le_precision
  have hsub : f.precision - 1 = p := by omega
  have hmax {j : ℤ} (h : (2 : ℚ) ^ j ≤ m * 2 ^ place) :
      j ≤ f.maxExponent + p := by
    have hlt := lt_of_two_zpow_lt ((h.trans hlimit).trans_lt
      (zpow_lt_zpow_right₀ one_lt_two (lt_add_one _)))
    omega
  rcases hle.lt_or_eq with hlt | rfl
  · have hle_max : place ≤ f.maxExponent := by
      rcases hfull with h | h
      · have hpow : (2 : ℚ) ^ (p + place) ≤ m * 2 ^ place := by
          rw [two_zpow_add, zpow_natCast]
          refine mul_le_mul_of_nonneg_right ?_ (two_zpow_pos _).le
          exact_mod_cast hsub ▸ h
        have := hmax hpow
        omega
      · rw [h]; exact f.min_le_max
    rw [carry_of_lt s ⟨hmin, hle_max, hlt, hfull⟩]
    exact denotes_finite ..
  · have hpow : (2 : ℚ) ^ (p + 1 + place) ≤ (2 ^ f.precision : ℕ) * 2 ^ place := by
      rw [two_zpow_add, hp]
      push_cast
      rw [← zpow_natCast]
      push_cast
      rw [add_comm (1 : ℤ)]
    have := hmax hpow
    have hcanonical : f.Canonical (2 ^ (f.precision - 1)) (place + 1) :=
      ⟨by omega, by omega, Nat.pow_lt_pow_right one_lt_two (by omega),
        .inl le_rfl⟩
    rw [carry_two_pow, value_two_pow, carry_of_lt s hcanonical]
    exact denotes_finite ..

/-- The last place of a ratio. -/
theorem lastPlace_leadingExponent {num den : ℕ} (hnum : 0 < num)
    (hden : 0 < den) :
    f.lastPlace (leadingExponent num den) = f.placeOf (num / den) := by
  have hpos : (0 : ℚ) < num / den := by positivity
  obtain ⟨lo, hi⟩ := leadingExponent_bounds hnum hden
  have hlo : leadingExponent num den ≤ Int.log 2 (num / den : ℚ) := by
    rw [← Int.zpow_le_iff_le_log one_lt_two hpos]
    exact_mod_cast lo
  have hhi : Int.log 2 (num / den : ℚ) < leadingExponent num den + 1 := by
    rw [← Int.lt_zpow_iff_log_lt one_lt_two hpos]
    exact_mod_cast hi
  unfold Format.placeOf
  rw [abs_of_pos hpos]
  congr 1
  omega

/-- What a ratio is rounded to, in units of its last place. -/
theorem round_eq_carry_nearest (s : Bool) {num den : ℕ} (hnum : 0 < num)
    (hden : 0 < den) :
    ∃ (m : ℕ) (place : ℤ), (round s num den : Binary f) = carry s m place ∧
      f.nearest (num / den) = m * 2 ^ place ∧ f.minExponent ≤ place ∧
      m ≤ 2 ^ f.precision ∧
      (2 ^ (f.precision - 1) ≤ m ∨ place = f.minExponent) := by
  have hpos : (0 : ℚ) < num / den := by positivity
  have hround : (round s num den : Binary f)
      = settle s (inUnits num den (f.placeOf (num / den))).1
          (inUnits num den (f.placeOf (num / den))).2
          (f.placeOf (num / den)) := by
    simp only [round, hnum.ne', if_false, lastPlace_leadingExponent hnum hden]
  have hlog : (2 : ℚ) ^ Int.log 2 |(num / den : ℚ)| ≤ num / den := by
    rw [abs_of_pos hpos]
    exact_mod_cast Int.zpow_log_le_self one_lt_two hpos
  have hlt := Format.abs_lt_place (f := f) (num / den)
  rw [abs_of_pos hpos] at hlt
  have hmin := Format.minExponent_le_placeOf (f := f) (num / den)
  have hplace : f.placeOf (num / den) ≠ f.minExponent →
      Int.log 2 |(num / den : ℚ)| = (f.precision - 1 : ℕ) + f.placeOf (num / den) := by
    have := f.one_le_precision
    unfold Format.placeOf Format.lastPlace
    omega
  have hnearest : f.nearest (num / den)
      = nearestWhole (num / den / 2 ^ f.placeOf (num / den))
        * 2 ^ f.placeOf (num / den) := rfl
  have hunits := inUnits_ratio num hden (f.placeOf (num / den))
  have hd := inUnits_snd_pos hden num (f.placeOf (num / den))
  have hp := two_zpow_pos (f.placeOf (num / den))
  generalize f.placeOf (num / den) = place at *
  rw [← eq_div_iff hp.ne'] at hunits
  rw [← hunits, nearestWhole_ratio _ hd, Int.cast_natCast] at hnearest
  have hwhole := nearestWhole_ratio (inUnits num den place).1 hd
  rw [hunits] at hwhole
  refine ⟨_, place, hround, hnearest, hmin, ?_, ?_⟩
  · have h := nearestWhole_mono (y := ((2 ^ f.precision : ℤ) : ℚ))
      ((div_le_iff₀ hp).2 (by push_cast; exact hlt.le))
    rw [hwhole, nearestWhole_intCast] at h
    exact_mod_cast h
  · by_cases h0 : place = f.minExponent
    · exact .inr h0
    · left
      rw [hplace h0, two_zpow_add, zpow_natCast] at hlog
      have h := nearestWhole_mono (x := ((2 ^ (f.precision - 1) : ℤ) : ℚ))
        ((le_div_iff₀ hp).2 (by push_cast; exact hlog))
      rw [hwhole, nearestWhole_intCast] at h
      exact_mod_cast h

/-- A ratio is rounded to the nearest number, unless this is too great for
the format. -/
theorem round_denotes_or (s : Bool) (num : ℕ) {den : ℕ} (hden : 0 < den)
    {x : ℚ} (hx : x = (if s then -1 else 1) * (num / den)) :
    (round s num den : Binary f).Denotes (f.nearest x) ∨
      (f.limit < |x| ∧ (round s num den : Binary f) = infinity s) := by
  have habs : |x| = num / den := by
    have hnn : (0 : ℚ) ≤ num / den := by positivity
    rw [hx]
    cases s <;> simp [abs_of_nonneg hnn]
  have hsign : f.nearest x = (if s then -1 else 1) * f.nearest (num / den) := by
    rw [hx]
    cases s with
    | false => simp
    | true => simp [Format.nearest_neg]
  rcases Nat.eq_zero_or_pos num with rfl | hnum
  · left
    have hx0 : x = 0 := by rw [hx]; simp
    rw [hx0, Format.nearest_zero]
    exact value_zero s f.minExponent
  · obtain ⟨m, place, hround, hnearest, hmin, hle, hfull⟩ :=
      round_eq_carry_nearest (f := f) s hnum hden
    rw [hround, hsign, hnearest]
    rcases le_or_gt |x| f.limit with hlimit | hlimit
    · left
      refine carry_denotes s hmin hle hfull ?_
      rw [← hnearest, ← habs]
      exact Format.nearest_le_of_holds f.holds_limit hlimit
    · rcases carry_denotes_or (f := f) s hle place with h | h
      · exact .inl h
      · exact .inr ⟨hlimit, h⟩

theorem roundScaled_denotes_or (s : Bool) (m : ℕ) (e : ℤ) :
    (roundScaled s m e : Binary f).Denotes (f.nearest (value s m e)) ∨
      (f.limit < |value s m e| ∧
        (roundScaled s m e : Binary f) = infinity (value s m e < 0)) := by
  have h := round_denotes_or (f := f) s (m * 2 ^ e.toNat)
    (Nat.two_pow_pos (-e).toNat) (x := value s m e) (by rw [scaled_ratio]; rfl)
  rw [← roundScaled_eq_round] at h
  refine h.imp_right fun ⟨hlimit, hinf⟩ => ⟨hlimit, ?_⟩
  have hm : 0 < m := by
    have hpos : 0 < |value s m e| := f.limit_pos.trans hlimit
    have := mt value_eq_zero_iff.2 (abs_pos.1 hpos)
    omega
  have hs : s = decide (value s m e < 0) :=
    Bool.eq_iff_iff.2 ((value_neg_iff hm).symm.trans decide_eq_true_iff.symm)
  exact hinf.trans (congrArg infinity hs)

/-- A ratio within the limit is rounded to the nearest number. -/
theorem round_denotes (s : Bool) (num : ℕ) {den : ℕ} (hden : 0 < den) {x : ℚ}
    (hx : x = (if s then -1 else 1) * (num / den)) (hlimit : |x| ≤ f.limit) :
    (round s num den : Binary f).Denotes (f.nearest x) :=
  (round_denotes_or s num hden hx).resolve_right
    fun h => absurd hlimit (not_le.2 h.1)

theorem roundScaled_denotes (s : Bool) (m : ℕ) (e : ℤ)
    (hlimit : |value s m e| ≤ f.limit) :
    (roundScaled s m e : Binary f).Denotes (f.nearest (value s m e)) :=
  (roundScaled_denotes_or s m e).resolve_right
    fun h => absurd hlimit (not_le.2 h.1)

theorem zero_denotes (s : Bool) : (zero s : Binary f).Denotes 0 :=
  value_zero s f.minExponent

theorem ofInt_denotes {i : ℤ} (hlimit : |(i : ℚ)| ≤ f.limit) :
    (ofInt i : Binary f).Denotes (f.nearest i) := by
  have hval : value (decide (i < 0)) i.natAbs 0 = i := by
    rw [value_natAbs, zpow_zero, mul_one]
  have := roundScaled_denotes (f := f) (decide (i < 0)) i.natAbs 0
    (by rwa [hval])
  rwa [hval] at this

theorem ofNat_denotes {n : ℕ} (hlimit : (n : ℚ) ≤ f.limit) :
    (ofNat n : Binary f).Denotes (f.nearest n) := by
  have hval : value false n 0 = n := by simp [value]
  have := roundScaled_denotes (f := f) false n 0
    (by rwa [hval, Nat.abs_cast])
  rwa [hval] at this

theorem Denotes.convert {x : Binary f} {q : ℚ} (hx : x.Denotes q)
    (hlimit : |q| ≤ g.limit) :
    (x.convert : Binary g).Denotes (g.nearest q) := by
  obtain ⟨s, m, e, h, rfl, rfl⟩ := hx.exists_finite
  exact roundScaled_denotes s m e hlimit

-- ============================================================ the operations

theorem Denotes.neg {x : Binary f} {q : ℚ} (hx : x.Denotes q) :
    (-x).Denotes (-q) := by
  obtain ⟨s, m, e, h, rfl, rfl⟩ := hx.exists_finite
  exact value_not s m e

/-- A product is rounded, unless it is too great for the format. -/
theorem Denotes.mul_or {x y : Binary f} {q r : ℚ} (hx : x.Denotes q)
    (hy : y.Denotes r) :
    (x * y).Denotes (f.nearest (q * r)) ∨
      (f.limit < |q * r| ∧ x * y = infinity (q * r < 0)) := by
  obtain ⟨s, m, e, h, rfl, rfl⟩ := hx.exists_finite
  obtain ⟨t, n, d, j, rfl, rfl⟩ := hy.exists_finite
  rw [value_mul, mul_finite]
  exact roundScaled_denotes_or ..

theorem Denotes.mul {x y : Binary f} {q r : ℚ} (hx : x.Denotes q)
    (hy : y.Denotes r) (hlimit : |q * r| ≤ f.limit) :
    (x * y).Denotes (f.nearest (q * r)) :=
  (hx.mul_or hy).resolve_right fun h => absurd hlimit (not_le.2 h.1)

/-- A sum is rounded, unless it is too great for the format. -/
theorem Denotes.add_or {x y : Binary f} {q r : ℚ} (hx : x.Denotes q)
    (hy : y.Denotes r) :
    (x + y).Denotes (f.nearest (q + r)) ∨
      (f.limit < |q + r| ∧ x + y = infinity (q + r < 0)) := by
  obtain ⟨s, m, e, h, rfl, rfl⟩ := hx.exists_finite
  obtain ⟨t, n, d, j, rfl, rfl⟩ := hy.exists_finite
  have hadd : (finite s m e h + finite t n d j : Binary f)
      = let unit := commonUnit m e n d
        let sum := aligned s m e unit + aligned t n d unit
        if sum = 0 then zero (s && t)
        else roundScaled (sum < 0) sum.natAbs unit := rfl
  rw [← aligned_eq_value s m (commonUnit_le_left m e n d),
    ← aligned_eq_value t n (commonUnit_le_right m e n d), ← add_mul,
    ← Int.cast_add, hadd]
  simp only
  generalize aligned s m e _ + aligned t n d _ = sum
  generalize commonUnit m e n d = unit
  split
  · next h0 =>
      left
      rw [h0, Int.cast_zero, zero_mul, Format.nearest_zero]
      exact zero_denotes _
  · rw [← value_natAbs]
    exact roundScaled_denotes_or ..

theorem Denotes.add {x y : Binary f} {q r : ℚ} (hx : x.Denotes q)
    (hy : y.Denotes r) (hlimit : |q + r| ≤ f.limit) :
    (x + y).Denotes (f.nearest (q + r)) :=
  (hx.add_or hy).resolve_right fun h => absurd hlimit (not_le.2 h.1)

theorem Denotes.sub_or {x y : Binary f} {q r : ℚ} (hx : x.Denotes q)
    (hy : y.Denotes r) :
    (x - y).Denotes (f.nearest (q - r)) ∨
      (f.limit < |q - r| ∧ x - y = infinity (q - r < 0)) := by
  simp only [sub_eq_add_neg q r]
  exact hx.add_or hy.neg

theorem Denotes.sub {x y : Binary f} {q r : ℚ} (hx : x.Denotes q)
    (hy : y.Denotes r) (hlimit : |q - r| ≤ f.limit) :
    (x - y).Denotes (f.nearest (q - r)) :=
  (hx.sub_or hy).resolve_right fun h => absurd hlimit (not_le.2 h.1)

theorem Denotes.div {x y : Binary f} {q r : ℚ} (hx : x.Denotes q)
    (hy : y.Denotes r) (hr : r ≠ 0) (hlimit : |q / r| ≤ f.limit) :
    (x / y).Denotes (f.nearest (q / r)) := by
  obtain ⟨s, m, e, h, rfl, rfl⟩ := hx.exists_finite
  obtain ⟨t, n, d, j, rfl, rfl⟩ := hy.exists_finite
  have hn : 0 < n := by
    have := mt value_eq_zero_iff.2 hr; omega
  have hdiv : (finite s m e h / finite t n d j : Binary f)
      = round (s ^^ t) (m * 2 ^ (e - d).toNat) (n * 2 ^ (d - e).toNat) := by
    show Binary.div _ _ = _
    simp [Binary.div, hn.ne']
  rw [hdiv]
  refine round_denotes _ _ (by positivity) ?_ hlimit
  rw [quotient_ratio m e hn d]
  unfold value
  cases s <;> cases t <;> simp <;> ring

-- =============================================================== comparisons

theorem Denotes.order_eq {x y : Binary f} {q r : ℚ} (hx : x.Denotes q)
    (hy : y.Denotes r) : order x y = some (compare q r) := by
  obtain ⟨s, m, e, h, rfl, rfl⟩ := hx.exists_finite
  obtain ⟨t, n, d, j, rfl, rfl⟩ := hy.exists_finite
  have hp := two_zpow_pos (commonUnit m e n d)
  rw [← aligned_eq_value s m (commonUnit_le_left m e n d),
    ← aligned_eq_value t n (commonUnit_le_right m e n d)]
  show some (compare (aligned s m e _) (aligned t n d _)) = _
  generalize aligned s m e _ = a
  generalize aligned t n d _ = b
  congr 1
  rcases lt_trichotomy a b with h | h | h
  · have h' : (a : ℚ) * 2 ^ commonUnit m e n d < b * 2 ^ commonUnit m e n d :=
      mul_lt_mul_of_pos_right (Int.cast_lt.2 h) hp
    rw [compare_lt_iff_lt.2 h, compare_lt_iff_lt.2 h']
  · subst h
    rw [compare_eq_iff_eq.2 rfl, compare_eq_iff_eq.2 rfl]
  · have h' : (b : ℚ) * 2 ^ commonUnit m e n d < a * 2 ^ commonUnit m e n d :=
      mul_lt_mul_of_pos_right (Int.cast_lt.2 h) hp
    rw [compare_gt_iff_gt.2 h, compare_gt_iff_gt.2 h']

theorem Denotes.less_iff {x y : Binary f} {q r : ℚ} (hx : x.Denotes q)
    (hy : y.Denotes r) : x.less y ↔ q < r := by
  unfold less
  rw [hx.order_eq hy, ← compare_lt_iff_lt]
  simp

theorem Denotes.atMost_iff {x y : Binary f} {q r : ℚ} (hx : x.Denotes q)
    (hy : y.Denotes r) : x.atMost y ↔ q ≤ r := by
  unfold atMost
  rw [hx.order_eq hy, ← compare_le_iff_le, Ordering.isLE_iff_ne_gt]

theorem Denotes.same_iff {x y : Binary f} {q r : ℚ} (hx : x.Denotes q)
    (hy : y.Denotes r) : x.same y ↔ q = r := by
  unfold same
  rw [hx.order_eq hy, ← compare_eq_iff_eq]
  simp

/-- Clamping, at each of the bounds and between them. -/
theorem Denotes.clamp_low {x low high : Binary f} {q l : ℚ}
    (hx : x.Denotes q) (hl : low.Denotes l) (h : q < l) :
    x.clamp low high = low := by
  unfold clamp
  rw [if_pos ((hx.less_iff hl).2 h)]

theorem Denotes.clamp_between {x low high : Binary f} {q l u : ℚ}
    (hx : x.Denotes q) (hl : low.Denotes l) (hu : high.Denotes u)
    (hlq : l ≤ q) (hqu : q ≤ u) : x.clamp low high = x := by
  unfold clamp
  rw [if_neg (mt (hx.less_iff hl).1 hlq.not_gt),
    if_neg (mt (hu.less_iff hx).1 hqu.not_gt)]

theorem Denotes.clamp_high {x low high : Binary f} {q l u : ℚ}
    (hx : x.Denotes q) (hl : low.Denotes l) (hu : high.Denotes u)
    (hlu : l ≤ u) (huq : u ≤ q) (hu0 : u ≠ 0) : x.clamp low high = high := by
  rcases huq.lt_or_eq with hlt | rfl
  · unfold clamp
    rw [if_neg (mt (hx.less_iff hl).1 (hlu.trans huq).not_gt),
      if_pos ((hu.less_iff hx).2 hlt)]
  · rw [hx.clamp_between hl hu hlu le_rfl]
    exact hx.eq_of_ne_zero hu hu0

-- ======================================================== leaving the format

theorem wholePart_eq_floor (m : ℕ) (e : ℤ) :
    (wholePart m e : ℤ) = ⌊(m : ℚ) * 2 ^ e⌋ := by
  rw [wholePart_eq, ← scaled_ratio m e, Rat.floor_natCast_div_natCast]
  norm_cast

theorem isWhole_iff_floor (m : ℕ) (e : ℤ) :
    isWhole m e ↔ ((⌊(m : ℚ) * 2 ^ e⌋ : ℤ) : ℚ) = m * 2 ^ e := by
  have hd : ((2 ^ (-e).toNat : ℕ) : ℚ) ≠ 0 := by positivity
  rw [← wholePart_eq_floor, ← scaled_ratio m e, eq_div_iff hd]
  unfold isWhole
  simp only [scaleUp_eq, decide_eq_true_eq, ← Nat.cast_inj (R := ℚ)]
  push_cast
  rfl

/-- Rounding up goes to the ceiling. -/
theorem ceil_value (s : Bool) (m : ℕ) (e : ℤ) :
    (if s then -(wholePart m e : ℤ)
      else if isWhole m e then wholePart m e else wholePart m e + 1)
      = ⌈value s m e⌉ := by
  rw [wholePart_eq_floor]
  cases s with
  | true =>
      rw [← Bool.not_false, value_not, value_false, Int.ceil_neg]
      rfl
  | false =>
      rw [value_false]
      by_cases h : isWhole m e
      · have h' := (isWhole_iff_floor m e).1 h
        rw [if_neg Bool.false_ne_true, if_pos h, ← h', Int.floor_intCast,
          Int.ceil_intCast]
      · have h' := mt (isWhole_iff_floor m e).2 h
        rw [if_neg Bool.false_ne_true, if_neg h, eq_comm, Int.ceil_eq_iff]
        have hle := Int.floor_le ((m : ℚ) * 2 ^ e)
        have hlt := Int.lt_floor_add_one ((m : ℚ) * 2 ^ e)
        push_cast
        exact ⟨by linarith [lt_of_le_of_ne hle h'], hlt.le⟩

theorem Denotes.ceilInt_eq {x : Binary f} {q : ℚ} (hx : x.Denotes q)
    (low high : ℤ) : x.ceilInt low high = max low (min high ⌈q⌉) := by
  obtain ⟨s, m, e, h, rfl, rfl⟩ := hx.exists_finite
  rw [← ceil_value]
  unfold ceilInt
  cases s <;> simp

theorem Denotes.ceil {x : Binary f} {q : ℚ} (hx : x.Denotes q)
    (hlimit : |(⌈q⌉ : ℚ)| ≤ f.limit) :
    x.ceil.Denotes (f.nearest ⌈q⌉) := by
  obtain ⟨s, m, e, h, rfl, rfl⟩ := hx.exists_finite
  rw [← ceil_value] at hlimit ⊢
  cases s with
  | true =>
      have hval : value true (wholePart m e) 0 = ((-(wholePart m e : ℤ) : ℤ) : ℚ) := by
        simp [value]
      simp only [if_true] at hlimit ⊢
      rw [← hval] at hlimit ⊢
      exact roundScaled_denotes _ _ _ hlimit
  | false =>
      have hval (n : ℕ) : value false n 0 = ((n : ℤ) : ℚ) := by simp [value]
      unfold Binary.ceil
      by_cases h : isWhole m e
      · simp only [h, if_true, Bool.false_eq_true, if_false] at hlimit ⊢
        rw [← hval] at hlimit ⊢
        exact roundScaled_denotes _ _ _ hlimit
      · simp only [h, Bool.false_eq_true, if_false] at hlimit ⊢
        rw [← Nat.cast_succ, ← hval] at hlimit ⊢
        exact roundScaled_denotes _ _ _ hlimit

/-- The integer part goes toward zero. -/
theorem Denotes.toInt_eq {x : Binary f} {q : ℚ} (hx : x.Denotes q)
    (low high : ℤ) :
    x.toInt low high
      = max low (min high (if q < 0 then ⌈q⌉ else ⌊q⌋)) := by
  obtain ⟨s, m, e, h, rfl, rfl⟩ := hx.exists_finite
  unfold toInt
  simp only [wholePart_eq_floor]
  have hnn : (0 : ℚ) ≤ m * 2 ^ e := by positivity
  cases s with
  | false => simp [value_false, not_lt.2 hnn]
  | true =>
      rw [← Bool.not_false, value_not, value_false, Int.ceil_neg]
      rcases hnn.lt_or_eq with hpos | h0
      · simp [hpos]
      · simp [← h0]

-- ============================================================= whole numbers

/-- Whole numbers with all digits of a format are far below its overflow. -/
theorem abs_le_limit_of_le_two_pow {q : ℚ} (h : |q| ≤ 2 ^ f.precision)
    (hmax : 1 ≤ f.maxExponent) : |q| ≤ f.limit := by
  rw [← zpow_natCast] at h
  exact h.trans (Format.two_zpow_le_limit (by omega))

/-- A whole number with no more digits than the format keeps is held
exactly. -/
theorem ofInt_denotes_self {i : ℤ} (hi : |i| ≤ 2 ^ f.precision)
    (hmin : f.minExponent ≤ 0) (hmax : 1 ≤ f.maxExponent) :
    (ofInt i : Binary f).Denotes i := by
  have hi' : |(i : ℚ)| ≤ 2 ^ f.precision := by exact_mod_cast hi
  have h := ofInt_denotes (abs_le_limit_of_le_two_pow hi' hmax)
  rwa [Format.nearest_of_holds (Format.holds_intCast hi hmin)] at h

theorem holds_natCast {n : ℕ} (hn : n ≤ 2 ^ f.precision)
    (hmin : f.minExponent ≤ 0) : f.Holds n := by
  have h : |(n : ℤ)| ≤ 2 ^ f.precision := by
    rw [Nat.abs_cast]; exact_mod_cast hn
  exact_mod_cast Format.holds_intCast h hmin

theorem natCast_le_limit {n : ℕ} (hn : n ≤ 2 ^ f.precision)
    (hmax : 1 ≤ f.maxExponent) : |(n : ℚ)| ≤ f.limit := by
  refine abs_le_limit_of_le_two_pow ?_ hmax
  rw [Nat.abs_cast]
  exact_mod_cast hn

theorem ofNat_denotes_self {n : ℕ} (hn : n ≤ 2 ^ f.precision)
    (hmin : f.minExponent ≤ 0) (hmax : 1 ≤ f.maxExponent) :
    (ofNat n : Binary f).Denotes n := by
  have h := ofNat_denotes ((le_abs_self _).trans (natCast_le_limit hn hmax))
  rwa [Format.nearest_of_holds (holds_natCast hn hmin)] at h

/-- One, in a format that reaches down and up to it. -/
theorem ofNat_one_denotes (hmin : f.minExponent ≤ 0) (hmax : 1 ≤ f.maxExponent) :
    (ofNat 1 : Binary f).Denotes 1 := by
  exact_mod_cast ofNat_denotes_self (f := f) Nat.one_le_two_pow hmin hmax

theorem Denotes.add_natCast {x y : Binary f} {m n : ℕ} (hx : x.Denotes m)
    (hy : y.Denotes n) (h : m + n ≤ 2 ^ f.precision)
    (hmin : f.minExponent ≤ 0) (hmax : 1 ≤ f.maxExponent) :
    (x + y).Denotes (m + n : ℕ) := by
  have hlimit := natCast_le_limit h hmax
  have hholds := holds_natCast h hmin
  push_cast at hlimit hholds ⊢
  have hsum := hx.add hy hlimit
  rwa [Format.nearest_of_holds hholds] at hsum

/-- Whole numbers are summed exactly, as long as the sum has no more digits
than the format keeps. -/
theorem sum_denotes {xs : List (Binary f)} {ns : List ℕ}
    (h : List.Forall₂ (fun x n => x.Denotes (n : ℕ)) xs ns)
    (hsum : ns.sum ≤ 2 ^ f.precision) (hmin : f.minExponent ≤ 0)
    (hmax : 1 ≤ f.maxExponent) : (sum xs).Denotes ns.sum := by
  have hfold {x : Binary f} {m : ℕ} (hx : x.Denotes m)
      (hle : m + ns.sum ≤ 2 ^ f.precision) :
      (xs.foldl (· + ·) x).Denotes (m + ns.sum : ℕ) := by
    clear hsum
    induction h generalizing x m with
    | nil => exact hx
    | @cons y n ys ns hy _ ih =>
        rw [List.sum_cons] at hle ⊢
        rw [← Nat.add_assoc]
        exact ih (hx.add_natCast hy (by omega) hmin hmax) (by omega)
  have hzero : (zero true : Binary f).Denotes ((0 : ℕ) : ℚ) := by
    rw [Nat.cast_zero]; exact zero_denotes true
  have := hfold hzero (by omega)
  rwa [Nat.zero_add] at this

end Binary

end AdditiveDetail

/-
The margins leave something of every picture.

The margin of an axis is computed in floating point and read as a word,
where a number below zero would be enormous. It is never below zero: the
share of an axis that is taken off is not, one half less rounds to minus
one half at the least, and the fraction is dropped toward zero. It is
never more than a quarter of the axis either, as far as words reach, so
`innerRegion` is what pooling gets.
-/
import AdditiveDetail.Detail.Pooling
import AdditiveDetail.Proofs.Binary.Denotation

namespace AdditiveDetail

open Binary

-- ============================================================= the constants

/-- What is far below the overflow. -/
theorem abs_le_limit_of_le_one {x : ℚ} (h0 : 0 ≤ x) (h1 : x ≤ 1) :
    |x| ≤ Format.binary64.limit := by
  rw [abs_of_nonneg h0]
  have h := Format.two_zpow_le_limit (f := .binary64) (k := 0) (by decide)
  rw [zpow_zero] at h
  exact h1.trans h

/-- The share of an edge, as a number. -/
theorem borderFactor_denotes :
    Pooling.borderFactor.Denotes (Format.binary64.nearest (1 / 10)) :=
  round_denotes false 1 (show 0 < 10 by decide) (by simp)
    (abs_le_limit_of_le_one (by norm_num) (by norm_num))

theorem holds_half : Format.binary64.Holds (1 / 2) := by
  simpa using Format.holds_two_zpow (f := .binary64) (k := -1) (by decide)

theorem half_denotes : (ofDecimal false 5 (-1) : Binary64).Denotes (1 / 2) := by
  have h : (ofDecimal false 5 (-1) : Binary64).Denotes
      (Format.binary64.nearest (1 / 2)) :=
    round_denotes false 5 (show 0 < 10 by decide) (by norm_num)
      (abs_le_limit_of_le_one (by norm_num) (by norm_num))
  rwa [Format.nearest_of_holds holds_half] at h

/-- The share is rounded to something between a sixteenth and an eighth. -/
theorem borderFactor_bounds :
    2 ^ (-4 : ℤ) ≤ Format.binary64.nearest (1 / 10) ∧
      Format.binary64.nearest (1 / 10) ≤ 2 ^ (-3 : ℤ) :=
  ⟨Format.le_nearest_of_holds (Format.holds_two_zpow (by decide)) (by norm_num),
    Format.nearest_le_of_holds (Format.holds_two_zpow (by decide)) (by norm_num)⟩

-- =========================================================== a single margin

namespace Pooling

/-- Not below zero, and not a NaN. -/
def Nonnegative (x : Binary64) : Prop :=
  x = infinity false ∨ ∃ q, x.Denotes q ∧ 0 ≤ q

theorem ofNat_nonnegative (n : ℕ) : Nonnegative (.ofNat n) := by
  have hval : value false n 0 = n := by simp [value]
  have h := roundScaled_denotes_or (f := .binary64) false n 0
  rw [hval] at h
  rcases h with h | ⟨-, h⟩
  · exact .inr ⟨_, h, Format.nearest_nonneg (Nat.cast_nonneg n)⟩
  · left
    rw [ofNat, h, decide_eq_false (not_lt.2 (Nat.cast_nonneg n))]

theorem mul_nonnegative {x : Binary64} {c : ℚ} {factor : Binary64}
    (hx : Nonnegative x) (hfactor : factor.Denotes c) (hc : 0 < c) :
    Nonnegative (x * factor) := by
  rcases hx with rfl | ⟨q, hq, h0⟩
  · obtain ⟨s, m, e, j, rfl, rfl⟩ := hfactor.exists_finite
    have hm : m ≠ 0 := mt value_eq_zero_iff.2 hc.ne'
    have hs : s = false := by
      have := mt (value_neg_iff (s := s) (e := e) (Nat.pos_of_ne_zero hm)).2
        hc.not_gt
      exact Bool.eq_false_iff.2 this
    left
    show Binary.mul _ _ = _
    simp [Binary.mul, hm, hs]
  · have hnn : 0 ≤ q * c := mul_nonneg h0 hc.le
    rcases hq.mul_or hfactor with h | ⟨-, h⟩
    · exact .inr ⟨_, h, Format.nearest_nonneg hnn⟩
    · left
      rw [h, decide_eq_false (not_lt.2 hnn)]

/-- One half less than a number that is not below zero has an integer part
that is not below zero. -/
theorem toInt_sub_half_nonneg {x : Binary64} (hx : Nonnegative x) :
    0 ≤ (x - ofDecimal false 5 (-1)).toInt (-2 ^ 63) (2 ^ 63 - 1) := by
  rcases hx with rfl | ⟨q, hq, h0⟩
  · obtain ⟨s, m, e, j, hhalf, -⟩ := half_denotes.exists_finite
    rw [hhalf]
    show 0 ≤ (infinity false : Binary64).toInt (-2 ^ 63) (2 ^ 63 - 1)
    decide
  · rcases hq.sub_or half_denotes with h | ⟨hlimit, h⟩
    · have hlow : -(1 / 2) ≤ Format.binary64.nearest (q - 1 / 2) :=
        Format.le_nearest_of_holds holds_half.neg (by linarith)
      rw [h.toInt_eq]
      generalize Format.binary64.nearest (q - 1 / 2) = r at hlow
      split
      · have : (-1 : ℤ) < ⌈r⌉ := by
          rw [Int.lt_ceil]; push_cast; linarith
        omega
      · next hr =>
          have : 0 ≤ ⌊r⌋ := Int.floor_nonneg.2 (not_lt.1 hr)
          omega
    · have hpos : ¬ q - 1 / 2 < 0 := by
        intro hneg
        have := abs_le_limit_of_le_one (x := -(q - 1 / 2)) (by linarith)
          (by linarith)
        rw [abs_neg] at this
        exact absurd hlimit (not_lt.2 this)
      rw [h, decide_eq_false hpos]
      decide

/-- The integer part of a margin. -/
def wholeMargin (n : ℕ) (factor : Binary64) : ℤ :=
  (ofNat n * factor - ofDecimal false 5 (-1)).toInt (-2 ^ 63) (2 ^ 63 - 1)

theorem wholeMargin_nonneg (n : ℕ) : 0 ≤ wholeMargin n borderFactor := by
  have hpos : 0 < Format.binary64.nearest (1 / 10) :=
    (two_zpow_pos (-4)).trans_le borderFactor_bounds.1
  exact toInt_sub_half_nonneg
    (mul_nonnegative (ofNat_nonnegative n) borderFactor_denotes hpos)

/-- The share of an axis, bounded by a power of two: each of the roundings
stays below one. -/
theorem share_denotes {n : ℕ} (hn : 0 < n) (hlt : n < 2 ^ 64) :
    ∃ p, (ofNat n * borderFactor).Denotes p ∧ 0 ≤ p ∧
      p ≤ 2 ^ (n.log2 - 2 : ℤ) := by
  obtain ⟨hlow, hhigh⟩ := borderFactor_bounds
  have hfactor := borderFactor_denotes
  generalize Format.binary64.nearest (1 / 10) = c at hlow hhigh hfactor
  have hc : 0 ≤ c := (two_zpow_pos (-4)).le.trans hlow
  have hlog : n.log2 < 64 := (Nat.log2_lt hn.ne').2 hlt
  have hlimit {j : ℤ} (h : j ≤ 64) {x : ℚ} (h0 : 0 ≤ x) (hx : x ≤ 2 ^ j) :
      |x| ≤ Format.binary64.limit := by
    rw [abs_of_nonneg h0]
    exact hx.trans (Format.two_zpow_le_limit (show j ≤ 971 + 53 - 1 by omega))
  have hholds {j : ℤ} (h : -2 ≤ j) : Format.binary64.Holds (2 ^ j) :=
    Format.holds_two_zpow (show -1074 ≤ j by omega)
  have hn0 : (0 : ℚ) ≤ n := Nat.cast_nonneg n
  have hle : (n : ℚ) ≤ 2 ^ (n.log2 + 1 : ℤ) := by
    exact_mod_cast Nat.lt_log2_self.le
  have hlength := ofNat_denotes (f := .binary64)
    ((le_abs_self _).trans (hlimit (by omega) hn0 hle))
  have ha0 := Format.nearest_nonneg (f := .binary64) hn0
  have ha := Format.nearest_le_of_holds (hholds (by omega)) hle
  generalize Format.binary64.nearest n = a at hlength ha0 ha
  have hac0 : 0 ≤ a * c := mul_nonneg ha0 hc
  have hac : a * c ≤ 2 ^ (n.log2 - 2 : ℤ) := by
    have hsplit : (2 : ℚ) ^ (n.log2 - 2 : ℤ)
        = 2 ^ (n.log2 + 1 : ℤ) * 2 ^ (-3 : ℤ) := by
      rw [← two_zpow_add]; congr 1; omega
    rw [hsplit]
    exact mul_le_mul ha hhigh hc (two_zpow_pos _).le
  exact ⟨_, hlength.mul hfactor (hlimit (by omega) hac0 hac),
    Format.nearest_nonneg hac0,
    Format.nearest_le_of_holds (hholds (by omega)) hac⟩

/-- As far as words reach, a margin is a quarter of its axis at most. -/
theorem wholeMargin_le {n : ℕ} (hn : 0 < n) (hlt : n < 2 ^ 64) :
    4 * wholeMargin n borderFactor ≤ n := by
  obtain ⟨p, hshare, hp0, hp⟩ := share_denotes hn hlt
  have hlog : n.log2 < 64 := (Nat.log2_lt hn.ne').2 hlt
  have hge : (2 : ℚ) ^ (n.log2 : ℤ) ≤ n := by
    exact_mod_cast Nat.log2_self_le hn.ne'
  have hquarter : (2 : ℚ) ^ (n.log2 : ℤ) = 4 * 2 ^ (n.log2 - 2 : ℤ) := by
    rw [zpow_sub₀ two_ne_zero]; ring
  have hmargin := hshare.sub half_denotes <| by
    have hbig : (1 : ℚ) ≤ 2 ^ (64 : ℤ) := by norm_num
    have hle := hp.trans (two_zpow_le (show (n.log2 - 2 : ℤ) ≤ 64 by omega))
    have habs : |p - 1 / 2| ≤ 2 ^ (64 : ℤ) :=
      abs_le.2 ⟨by linarith, by linarith⟩
    exact habs.trans (Format.two_zpow_le_limit (by decide))
  have hm := Format.nearest_le_of_holds (f := .binary64)
    (Format.holds_two_zpow (show -1074 ≤ (n.log2 - 2 : ℤ) by omega))
    (show p - 1 / 2 ≤ 2 ^ (n.log2 - 2 : ℤ) by linarith)
  unfold wholeMargin
  rw [hmargin.toInt_eq]
  generalize Format.binary64.nearest (p - 1 / 2) = r at hm
  split
  · next hr =>
      have : ⌈r⌉ ≤ 0 := Int.ceil_le.2 (by push_cast; exact hr.le)
      omega
  · have hfloor : ((4 * ⌊r⌋ : ℤ) : ℚ) ≤ (n : ℤ) := by
      have := Int.floor_le r
      push_cast
      linarith
    have := Int.cast_le.1 hfloor
    omega

/-- A margin and its opposite one leave something of an axis. -/
theorem border_lt {n : ℕ} (hn : 0 < n) : 2 * border n borderFactor < n := by
  have hborder : border n borderFactor
      = (wholeMargin n borderFactor % 2 ^ 64).toNat := rfl
  have h0 := wholeMargin_nonneg n
  have hword : wholeMargin n borderFactor ≤ 2 ^ 63 - 1 := by
    unfold wholeMargin toInt
    split
    · decide
    · split <;> decide
    · simp only; omega
  rcases Nat.lt_or_ge n (2 ^ 64) with hlt | hge
  · have := wholeMargin_le hn hlt
    omega
  · omega

/-- Of an axis without samples nothing is left out. -/
theorem two_border_le (n : ℕ) : 2 * border n borderFactor ≤ n := by
  rcases Nat.eq_zero_or_pos n with rfl | hn
  · decide +kernel
  · exact (border_lt hn).le

-- ================================================================ the region

/-- The part of a picture inside the margins that scoring leaves. -/
def innerRegion (d : Dims) : Region where
  top := border d.height borderFactor
  bottom := d.height - border d.height borderFactor
  left := border d.width borderFactor
  right := d.width - border d.width borderFactor

/-- The margins leave this region of every picture. -/
theorem scoredRegion_eq (d : Dims) :
    scoredRegion d borderFactor = .ok (innerRegion d) := by
  have htop := two_border_le d.height
  have hleft := two_border_le d.width
  unfold scoredRegion
  exact if_pos ⟨by omega, by omega⟩

/-- Pooling gets a region of every picture. -/
theorem pooledRegion_eq (d : Dims) :
    pooledRegion d borderFactor = .ok (innerRegion d) := by
  have htop := two_border_le d.height
  have hleft := two_border_le d.width
  unfold pooledRegion
  rw [scoredRegion_eq]
  show (if _ then _ else _) = _
  refine if_neg ?_
  unfold innerRegion
  simp only
  omega

end Pooling

end AdditiveDetail

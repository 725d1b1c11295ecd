/-
The rounded cube root keeps the order, and its ceiling is exact.

# Order

`Denotes.cbrt` knows a root only by where it stands to numbers of few
digits. That is all that rounding sees of it, so the roots of two numbers
are rounded in the order of the numbers (`Denotes.cbrt_mono`).

# Ceilings

A root that exceeds a whole number exceeds it by a gap that the format
sees, as long as the radicand does not have too many digits. Then the
ceiling of the rounded root is the ceiling of the root.
-/
import AdditiveDetail.Proofs.Binary.CubeRoot
import AdditiveDetail.Proofs.Binary.Grid

namespace AdditiveDetail

namespace Binary

variable {f : Format}

-- ===================================================================== order

/-- Cube roots are rounded in the order of their radicands. -/
theorem Denotes.cbrt_mono {x y : Binary f} {a b : ℚ} (hx : x.Denotes a)
    (hy : y.Denotes b) (h0 : 0 ≤ a) (h : a ≤ b) (hlimit : b ≤ f.limit ^ 3) :
    ∃ c d, x.cbrt.Denotes c ∧ y.cbrt.Denotes d ∧ c ≤ d := by
  rcases h0.eq_or_lt with rfl | ha
  · rcases h.eq_or_lt with rfl | hb
    · exact ⟨0, 0, hx.cbrt_zero, hy.cbrt_zero, le_rfl⟩
    · obtain ⟨u, hu, hpos, -⟩ := hy.cbrt hb hlimit
      exact ⟨0, _, hx.cbrt_zero, hu, Format.nearest_nonneg hpos.le⟩
  · obtain ⟨t, ht, htpos, htside⟩ := hx.cbrt ha (h.trans hlimit)
    obtain ⟨u, hu, hupos, huside⟩ := hy.cbrt (ha.trans_le h) hlimit
    refine ⟨_, _, ht, hu, Format.nearest_le_nearest_of_grid htpos hupos ?_ ?_⟩
    · intro j e hj hjt
      exact (huside j e hj).1.2 (((htside j e hj).1.1 hjt).trans h)
    · intro j e hj huj
      exact (htside j e hj).2.2 (h.trans ((huside j e hj).2.1 huj))

-- ================================================================== ceilings

/-- The ceiling of a rounded cube root is that of the root, where the root
is far enough above the whole number below it: by a place that the format
keeps. -/
theorem Denotes.ceil_cbrt {x : Binary64} {a : ℚ} (hx : x.Denotes a) {m k : ℕ}
    (hlow : ((m : ℚ) + 2 ^ (-k : ℤ)) ^ 3 ≤ a) (hhigh : a ≤ (m + 1 : ℕ) ^ 3)
    (hdigits : (m + 1) * 2 ^ k ≤ 2 ^ 53) :
    x.cbrt.ceil.Denotes (m + 1 : ℕ) := by
  have hp := two_zpow_pos (-k)
  have hone : 1 ≤ 2 ^ k := Nat.one_le_two_pow
  have hm : m + 1 ≤ 2 ^ 53 :=
    (Nat.le_mul_of_pos_right _ hone).trans hdigits
  have hk : 2 ^ k ≤ 2 ^ 53 := (Nat.le_mul_of_pos_left _ m.succ_pos).trans hdigits
  have hk53 : k ≤ 53 := (Nat.pow_le_pow_iff_right Nat.one_lt_two).1 hk
  have hheld := holds_natCast (f := .binary64) hm (by decide)
  have hmax : |((m + 1 : ℕ) : ℚ)| ≤ Format.binary64.limit :=
    natCast_le_limit hm (by decide)
  have ha : 0 < a :=
    (pow_pos (add_pos_of_nonneg_of_pos (Nat.cast_nonneg m) hp) 3).trans_le hlow
  have hlimit : a ≤ Format.binary64.limit ^ 3 := by
    refine hhigh.trans (pow_le_pow_left₀ (Nat.cast_nonneg _) ?_ 3)
    exact (le_abs_self _).trans hmax
  -- the root is enclosed between two numbers of few digits
  obtain ⟨n, hn⟩ : ∃ n : ℕ, n = m * 2 ^ k + 1 := ⟨_, rfl⟩
  have hbelow : (m : ℚ) + 2 ^ (-k : ℤ) = n * 2 ^ (-k : ℤ) := by
    rw [hn, zpow_neg, zpow_natCast]
    push_cast
    field_simp
  have hn53 : n ≤ 2 ^ 53 := by
    rw [Nat.succ_mul] at hdigits
    omega
  obtain ⟨t, ht, -, hside⟩ := hx.cbrt ha hlimit
  have hlowt : (n : ℚ) * 2 ^ (-k : ℤ) ≤ t :=
    (hside n (-k) (hn53.trans (by decide))).1.2 (hbelow ▸ hlow)
  have hhight : t ≤ (m + 1 : ℕ) := by
    have h := (hside (m + 1) 0 (hm.trans (by decide))).2.2
    rw [zpow_zero, mul_one] at h
    exact h hhigh
  have hc₁ : (m : ℚ) < Format.binary64.nearest t := by
    refine lt_of_lt_of_le (by linarith) (Format.le_nearest_of_holds ?_ hlowt)
    refine Format.holds_of_le (m := n) ?_ (show (-1074 : ℤ) ≤ -k by omega)
    rw [Nat.abs_cast]
    exact_mod_cast hn53
  have hc₂ := Format.nearest_le_of_holds hheld hhight
  have hceil : ⌈Format.binary64.nearest t⌉ = ((m + 1 : ℕ) : ℤ) := by
    rw [Int.ceil_eq_iff]
    push_cast at hc₂ ⊢
    exact ⟨by linarith, hc₂⟩
  have h := ht.ceil (by rw [hceil, Int.cast_natCast]; exact hmax)
  rwa [hceil, Int.cast_natCast, Format.nearest_of_holds hheld] at h

end Binary

end AdditiveDetail

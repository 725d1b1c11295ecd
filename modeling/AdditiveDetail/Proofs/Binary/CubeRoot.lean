/-
The cube root is rounded once.

The number that `cbrt` rounds is not the root itself, which is no rational
number in general, but it stands where the root stands: on the same side
of every number of the format, and of every middle between two of them.
`Denotes.cbrt` says so without a root, by comparing cubes.
-/
import AdditiveDetail.Binary.Root
import AdditiveDetail.Proofs.Binary.Denotation

namespace AdditiveDetail

-- ============================================================= integer roots

/-- Twice a cube root, with one more when the root is not exact. -/
def twiceRoot (n : ℕ) : ℕ :=
  2 * cubeRoot n + if cubeRoot n ^ 3 = n then 0 else 1

theorem le_twiceRoot_iff {n j : ℕ} : 2 * j ≤ twiceRoot n ↔ j ^ 3 ≤ n := by
  rw [← le_cubeRoot_iff]
  unfold twiceRoot
  split <;> omega

theorem twiceRoot_le_iff {n j : ℕ} : twiceRoot n ≤ 2 * j ↔ n ≤ j ^ 3 := by
  have hle (i : ℕ) : i ≤ cubeRoot n ↔ i ^ 3 ≤ n := le_cubeRoot_iff
  unfold twiceRoot
  generalize cubeRoot n = r at hle
  split
  · next hexact =>
      have hcubes : r ≤ j ↔ r ^ 3 ≤ j ^ 3 :=
        (pow_le_pow_iff_left₀ (Nat.zero_le r) (Nat.zero_le j)
          three_ne_zero).symm
      omega
  · next hexact =>
      -- the root is not exact, so a cube below `n` is far below it
      have hne : n ≠ j ^ 3 := by
        intro hn
        have hjr := (hle j).2 hn.ge
        have hrj : r ^ 3 ≤ j ^ 3 := hn ▸ (hle r).1 le_rfl
        have := (pow_le_pow_iff_left₀ (Nat.zero_le r) (Nat.zero_le j)
          three_ne_zero).1 hrj
        exact hexact (by rw [hn, le_antisymm this hjr])
      have := hle j
      omega

namespace Binary

variable {f : Format}

/-- Where a number stands to the cube root of `a`, seen at the multiples of a
unit. -/
structure RootAt (a t unit : ℚ) : Prop where
  le_iff : ∀ j : ℕ, j * unit ≤ t ↔ (j * unit) ^ 3 ≤ a
  ge_iff : ∀ j : ℕ, t ≤ j * unit ↔ a ≤ (j * unit) ^ 3

theorem rootAt_twiceRoot (n : ℕ) (e : ℤ) :
    RootAt (n * 2 ^ (3 * e)) (twiceRoot n * 2 ^ (e - 1)) (2 ^ e) := by
  have hp := two_zpow_pos (e - 1)
  have hp3 := two_zpow_pos (3 * e)
  have htwice (j : ℕ) : (j : ℚ) * 2 ^ e = ((2 * j : ℕ) : ℚ) * 2 ^ (e - 1) := by
    rw [zpow_sub_one₀ two_ne_zero]; push_cast; ring
  have hcube (j : ℕ) : ((j : ℚ) * 2 ^ e) ^ 3 = ((j ^ 3 : ℕ) : ℚ) * 2 ^ (3 * e) := by
    rw [mul_pow, ← zpow_natCast ((2 : ℚ) ^ e), ← zpow_mul, mul_comm e]
    push_cast
    rfl
  constructor <;> intro j <;>
    rw [hcube, htwice, mul_le_mul_iff_left₀ hp, mul_le_mul_iff_left₀ hp3,
      Nat.cast_le, Nat.cast_le]
  · exact le_twiceRoot_iff
  · exact twiceRoot_le_iff

/-- The cube root of a positive number, in units of its own. -/
theorem cbrt_eq_twiceRoot {m : ℕ} {e : ℤ} (h : f.Canonical m e) (hm : 0 < m) :
    ∃ (n : ℕ) (d : ℤ), (m : ℚ) * 2 ^ e = n * 2 ^ (3 * d) ∧
      2 ^ (f.precision + 1) ≤ cubeRoot n ∧
      (finite false m e h).cbrt
        = (roundScaled false (twiceRoot n) (d - 1) : Binary f) := by
  obtain ⟨k, hk⟩ : ∃ k, k = 3 * (f.precision + 1) - m.log2 := ⟨_, rfl⟩
  obtain ⟨shift, hshift⟩ : ∃ s, s = k + ((e - k) % 3).toNat := ⟨_, rfl⟩
  refine ⟨m * 2 ^ shift, (e - shift) / 3, ?_, ?_, ?_⟩
  · have hd : 3 * ((e - shift) / 3) = e - shift := by omega
    rw [hd, Nat.cast_mul, mul_assoc, Nat.cast_pow, Nat.cast_two,
      ← zpow_natCast, ← two_zpow_add]
    congr 2
    omega
  · rw [le_cubeRoot_iff, ← pow_mul]
    calc 2 ^ ((f.precision + 1) * 3) ≤ 2 ^ (m.log2 + shift) :=
          Nat.pow_le_pow_right Nat.two_pos (by omega)
      _ = 2 ^ m.log2 * 2 ^ shift := pow_add ..
      _ ≤ m * 2 ^ shift :=
          Nat.mul_le_mul_right _ (Nat.log2_self_le hm.ne')
  · simp only [cbrt, hm.ne', if_false, scaleUp_eq, ← hk, ← hshift, twiceRoot]

/-- Numbers of few digits with smaller places than the unit are far below
the root. -/
theorem RootAt.lt_of_lt {a t unit y : ℚ} (h : RootAt a t unit) {k : ℕ}
    (hk : ((k : ℚ) * unit) ^ 3 ≤ a) (h0 : 0 ≤ y) (hy : y < k * unit) :
    y < t ∧ y ^ 3 < a :=
  ⟨hy.trans_le ((h.le_iff k).2 hk),
    (pow_lt_pow_left₀ hy h0 three_ne_zero).trans_le hk⟩

/-- Seen at numbers with whatever places, as long as they have few
digits. -/
theorem RootAt.grid {a t : ℚ} {d : ℤ} (h : RootAt a t (2 ^ d)) {k : ℕ}
    (hk : ((k : ℚ) * 2 ^ d) ^ 3 ≤ a) {j : ℕ} (hj : j ≤ k) (hpos : 0 < k)
    (e : ℤ) :
    ((j : ℚ) * 2 ^ e ≤ t ↔ ((j : ℚ) * 2 ^ e) ^ 3 ≤ a) ∧
      (t ≤ (j : ℚ) * 2 ^ e ↔ a ≤ ((j : ℚ) * 2 ^ e) ^ 3) := by
  rcases le_or_gt d e with hde | hde
  · obtain ⟨i, hi⟩ := Int.eq_ofNat_of_zero_le (Int.sub_nonneg_of_le hde)
    have hy : (j : ℚ) * 2 ^ e = (j * 2 ^ i : ℕ) * 2 ^ d := by
      push_cast
      rw [mul_assoc, ← zpow_natCast, ← two_zpow_add]
      congr 2
      omega
    rw [hy]
    exact ⟨h.le_iff _, h.ge_iff _⟩
  · have hy : (j : ℚ) * 2 ^ e < k * 2 ^ d := by
      calc (j : ℚ) * 2 ^ e ≤ k * 2 ^ e :=
            mul_le_mul_of_nonneg_right (by exact_mod_cast hj)
              (two_zpow_pos e).le
        _ < k * 2 ^ d := mul_lt_mul_of_pos_left
            (zpow_lt_zpow_right₀ one_lt_two hde) (by exact_mod_cast hpos)
    have h0 : (0 : ℚ) ≤ j * 2 ^ e :=
      mul_nonneg (Nat.cast_nonneg j) (two_zpow_pos e).le
    obtain ⟨h₁, h₂⟩ := h.lt_of_lt hk h0 hy
    exact ⟨iff_of_true h₁.le h₂.le, iff_of_false h₁.not_ge h₂.not_ge⟩

/-- The cube root of zero. -/
theorem Denotes.cbrt_zero {x : Binary f} (hx : x.Denotes 0) :
    x.cbrt.Denotes 0 := by
  obtain ⟨s, m, e, h, rfl, hval⟩ := hx.exists_finite
  have hm : m = 0 := value_eq_zero_iff.1 hval.symm
  rw [hval, cbrt, if_pos hm]
  exact denotes_finite ..

/-- THE CUBE ROOT: a positive number within the cube of the limit has the
cube root of what it denotes rounded to the nearest number. What is
rounded stands to every number of one digit more than the format keeps as
the root does. -/
theorem Denotes.cbrt {x : Binary f} {a : ℚ} (hx : x.Denotes a) (ha : 0 < a)
    (hlimit : a ≤ f.limit ^ 3) :
    ∃ t, x.cbrt.Denotes (f.nearest t) ∧ 0 < t ∧
      ∀ (j : ℕ) (e : ℤ), j ≤ 2 ^ (f.precision + 1) →
        ((j : ℚ) * 2 ^ e ≤ t ↔ ((j : ℚ) * 2 ^ e) ^ 3 ≤ a) ∧
        (t ≤ (j : ℚ) * 2 ^ e ↔ a ≤ ((j : ℚ) * 2 ^ e) ^ 3) := by
  obtain ⟨s, m, e, h, rfl, rfl⟩ := hx.exists_finite
  have hm : 0 < m := by
    have := mt value_eq_zero_iff.2 ha.ne'
    omega
  obtain rfl : s = false :=
    Bool.eq_false_iff.2 (mt (value_neg_iff hm).2 ha.not_gt)
  rw [value_false] at *
  obtain ⟨n, d, hval, hdigits, hcbrt⟩ := cbrt_eq_twiceRoot h hm
  rw [hval] at hlimit ⊢
  have hfew := Nat.two_pow_pos (f.precision + 1)
  have hpos : 0 < twiceRoot n := by
    unfold twiceRoot
    omega
  have ht : (0 : ℚ) < twiceRoot n * 2 ^ (d - 1) := by positivity
  have hcube : (((2 ^ (f.precision + 1) : ℕ) : ℚ) * 2 ^ d) ^ 3
      ≤ n * 2 ^ (3 * d) := by
    rw [mul_pow, ← zpow_natCast ((2 : ℚ) ^ d), ← zpow_mul, mul_comm d]
    exact mul_le_mul_of_nonneg_right
      (by exact_mod_cast le_cubeRoot_iff.1 hdigits) (two_zpow_pos _).le
  have hgrid (j : ℕ) (e : ℤ) (hj : j ≤ 2 ^ (f.precision + 1)) :=
    (rootAt_twiceRoot n d).grid hcube hj hfew e
  refine ⟨_, ?_, ht, hgrid⟩
  have hle : (twiceRoot n : ℚ) * 2 ^ (d - 1) ≤ f.limit := by
    have h := (hgrid 1 (f.maxExponent + f.precision - 1)
      Nat.one_le_two_pow).2.2
    rw [Nat.cast_one, one_mul] at h
    exact h hlimit
  rw [hcbrt, ← value_false]
  refine roundScaled_denotes _ _ _ ?_
  rw [value_false, abs_of_pos ht]
  exact hle

end Binary

end AdditiveDetail

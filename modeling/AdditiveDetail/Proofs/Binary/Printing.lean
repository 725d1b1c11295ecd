/-
Floating-point numbers as decimals.

A finite number is printed as what it is, not as the decimal that reads back:
its exact value is taken in units of the last place that is printed and
rounded to a whole number of them, once, half to even (`IsNearest`). The
digits of that natural are the text (`toFixed_isPrinted`). A sign stands in
front of all that carry one, zero included.
-/
import AdditiveDetail.Proofs.Binary.RationalRounding
import AdditiveDetail.Proofs.Digits

namespace AdditiveDetail

/-- A natural is nearest to a number; of two equally near it is the even
one. -/
structure IsNearest (x : ℚ) (n : ℕ) : Prop where
  near : |(n : ℚ) - x| ≤ 1 / 2
  even_of_tie : |(n : ℚ) - x| = 1 / 2 → Even n

theorem isNearest_nearestEven (num : ℕ) {den : ℕ} (hden : 0 < den) :
    IsNearest (num / den) (nearestEven num den) := by
  have hratio := nearestWhole_ratio num hden
  have herror := nearestWhole_error (num / den)
  have htie := even_nearestWhole_of_tie (x := num / den)
  rw [hratio] at herror htie
  exact ⟨by exact_mod_cast herror, fun h => by exact_mod_cast htie h⟩

namespace Binary

variable {f : Format}

/-- A text is the number with a count of places: a decimal of the units that
are nearest to the magnitude, behind the sign. -/
def IsPrinted (places : ℕ) : Binary f → String → Prop
  | .nan, text => text = "NaN"
  | .infinity s, text => text = if s then "-inf" else "inf"
  | .finite s m e _, text => ∃ (units : ℕ) (decimal : String),
      IsNearest (m * 2 ^ e * 10 ^ places) units ∧
      IsDecimal decimal places units ∧
      text = (if s then "-" else "") ++ decimal

/-- What is printed is the number, rounded once. -/
theorem toFixed_isPrinted (places : ℕ) (x : Binary f) :
    x.IsPrinted places (x.toFixed places) := by
  cases x with
  | nan => rfl
  | infinity s => rfl
  | finite s m e h =>
      have hden : 0 < 2 ^ (-e).toNat := Nat.two_pow_pos _
      have hratio : (m * 2 ^ e * 10 ^ places : ℚ)
          = (m * 2 ^ e.toNat * 10 ^ places : ℕ) / (2 ^ (-e).toNat : ℕ) := by
        rw [eq_div_iff (by exact_mod_cast hden.ne')]
        push_cast
        rw [two_pow_toNat e]
        ring
      refine ⟨_, _, ?_, decimalText_isDecimal _ places, rfl⟩
      rw [hratio]
      exact isNearest_nearestEven _ hden

/-- A half is rounded to the even neighbour. -/
example : (ofDecimal false 125 (-3) : Binary64).toFixed 2 = "0.12" := by
  decide +kernel

end Binary

end AdditiveDetail

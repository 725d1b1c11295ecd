/-
Digits of naturals, and the decimals that are made of them.

The digits of a natural are read as the natural (`Nat.ofDigitChars`), and no
zero stands in front of others. A decimal with a fixed count of places is one
natural in two parts: the digits in front of the point and those behind it,
read one after the other, are so many units of the last place. Zeros fill up
the part behind the point; they are worth nothing in front of its digits, and
they move what stands in front of them to its place.
-/
import AdditiveDetail.Binary.Decimal

namespace AdditiveDetail

-- one power on naturals, whatever else is imported
attribute [local instance(high)] instPowNat

variable {n places units : Nat}

-- ==================================================================== digits

theorem isDigit_of_mem_toDigits (n : Nat) :
    ∀ a ∈ Nat.toDigits 10 n, a.isDigit := fun _ =>
  Nat.isDigit_of_mem_toDigits (by decide) (by decide)

theorem head?_toDigits (h : 0 < n) :
    (Nat.toDigits 10 n).head? ≠ some '0' := by
  have digitChar_ne : ∀ d < 10, 0 < d → Nat.digitChar d ≠ '0' := by decide
  induction n using Nat.strongRecOn with
  | ind n ih =>
      rw [Nat.toDigits_eq_if (by decide)]
      split
      · next hn => simpa using digitChar_ne n hn h
      · next hn =>
          obtain ⟨d, ds, hd⟩ := List.exists_cons_of_ne_nil
            (Nat.toDigits_ne_nil (n := n / 10) (b := 10))
          have := ih (n / 10) (by omega) (by omega)
          rwa [hd] at this ⊢

/-- A zero in front is the only digit. -/
theorem toDigits_of_head?_zero (h : (Nat.toDigits 10 n).head? = some '0') :
    Nat.toDigits 10 n = ['0'] := by
  rcases Nat.eq_zero_or_pos n with rfl | hpos
  · rfl
  · exact absurd h (head?_toDigits hpos)

-- ============================================================= filled places

/-- The digits of a natural, with zeros in front of them up to a count of
places. -/
def filledDigits (places n : Nat) : List Char :=
  List.replicate (places - (Nat.toDigits 10 n).length) '0' ++ Nat.toDigits 10 n

theorem isDigit_of_mem_filledDigits {a : Char}
    (h : a ∈ filledDigits places n) : a.isDigit := by
  rcases List.mem_append.1 h with h | h
  · rw [List.eq_of_mem_replicate h]
    decide
  · exact isDigit_of_mem_toDigits n a h

/-- What has room in the places fills them. -/
theorem length_filledDigits (hpos : 0 < places) (h : n < 10 ^ places) :
    (filledDigits places n).length = places := by
  have hroom := (Nat.length_toDigits_le_iff (by decide) hpos).2 h
  unfold filledDigits
  rw [List.length_append, List.length_replicate]
  omega

/-- Behind other digits, filled places move these by so many powers of ten. -/
theorem ofDigitChars_filledDigits (hpos : 0 < places) (h : n < 10 ^ places)
    (front : Nat) :
    Nat.ofDigitChars 10 (filledDigits places n) front
      = 10 ^ places * front + n := by
  have hlength := length_filledDigits hpos h
  have hzeros : Nat.ofDigitChars 10 (filledDigits places n) 0 = n := by
    unfold filledDigits
    rw [Nat.ofDigitChars_append, Nat.ofDigitChars_replicate_zero, Nat.mul_zero,
      Nat.ofDigitChars_toDigits (by decide) (by decide)]
  rw [Nat.ofDigitChars_eq_ofDigitChars_zero, hlength, hzeros]

-- ================================================================== decimals

/-- A text is the decimal of so many units of its last place: a whole part
without zeros in front, behind a point as many digits as there are places, and
all digits, read as one natural, are the units. Without places there is no
point. -/
def IsDecimal (text : String) (places units : Nat) : Prop :=
  ∃ whole fraction : List Char,
    text.toList = whole ++ (if places = 0 then [] else '.' :: fraction) ∧
    (∀ a ∈ whole ++ fraction, a.isDigit) ∧
    whole ≠ [] ∧ (whole.head? = some '0' → whole = ['0']) ∧
    fraction.length = places ∧
    Nat.ofDigitChars 10 (whole ++ fraction) 0 = units

theorem toList_pushn (c : Char) (k : Nat) :
    ("".pushn c k).toList = List.replicate k c := by
  unfold String.pushn
  induction k with
  | zero => rfl
  | succ k ih =>
      rw [Nat.repeat, String.toList_push, ih, List.replicate_succ']

theorem decimalText_isDecimal (units places : Nat) :
    IsDecimal (Binary.decimalText units places) places units := by
  unfold Binary.decimalText IsDecimal
  rcases Nat.eq_zero_or_pos places with rfl | hpos
  · refine ⟨Nat.toDigits 10 units, [], ?_, ?_, Nat.toDigits_ne_nil,
      toDigits_of_head?_zero, rfl, ?_⟩
    · simp
    · simpa using isDigit_of_mem_toDigits units
    · rw [List.append_nil, Nat.ofDigitChars_toDigits (by decide) (by decide)]
  · have hne : places ≠ 0 := Nat.ne_of_gt hpos
    have hroom : units % 10 ^ places < 10 ^ places :=
      Nat.mod_lt _ (Nat.pow_pos (by decide))
    refine ⟨Nat.toDigits 10 (units / 10 ^ places),
      filledDigits places (units % 10 ^ places), ?_, ?_, Nat.toDigits_ne_nil,
      toDigits_of_head?_zero, length_filledDigits hpos hroom, ?_⟩
    · have hlength (k : Nat) : k.repr.length = (Nat.toDigits 10 k).length := by
        rw [← String.length_toList, Nat.toList_repr]
      simp [hne, toList_pushn, filledDigits, hlength]
    · intro a ha
      rcases List.mem_append.1 ha with ha | ha
      · exact isDigit_of_mem_toDigits _ a ha
      · exact isDigit_of_mem_filledDigits ha
    · rw [Nat.ofDigitChars_append,
        Nat.ofDigitChars_toDigits (by decide) (by decide),
        ofDigitChars_filledDigits hpos hroom, Nat.div_add_mod]

end AdditiveDetail

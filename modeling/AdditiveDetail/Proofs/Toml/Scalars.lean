/-
Words that are written without marks read back, above all naturals in base
ten.

A word ends where a line does (`takeWord_append`). What the digits of a
natural need to be taken for an integer is that they ARE digits, that
there is one, that no zero stands in front of others, and that the number
can be held.
-/
import Mathlib.Data.List.TakeWhile
import AdditiveDetail.Proofs.Digits
import AdditiveDetail.Toml.Scalar

namespace AdditiveDetail.Toml

-- one power on naturals, whatever else is imported
attribute [local instance(high)] instPowNat

variable {n : Nat} {c : Char} {w rest : List Char}

-- ===================================================================== words

theorem takeWord_append (hw : ∀ a ∈ w, isWordChar a)
    (hc : isWordChar c = false) (hb : isBlank c = false) :
    takeWord (w ++ c :: rest) = (w, c :: rest) := by
  unfold takeWord
  induction w with
  | nil => simp [takeWord.go, hc, hb]
  | cons a w ih =>
      obtain ⟨ha, hw⟩ := List.forall_mem_cons.1 hw
      rw [List.cons_append, takeWord.go, if_pos ha, ih hw]

-- ==================================================================== digits

theorem isWordChar_of_isDigit (h : c.isDigit) : isWordChar c := by
  unfold isWordChar
  rw [Bool.not_eq_true', Bool.eq_false_iff]
  intro hc
  simp only [endsWord, isBlank, Bool.or_eq_true, decide_eq_true_eq,
    List.contains_eq_mem] at hc
  rcases hc with (rfl | rfl) | hc
  · exact absurd h (by decide)
  · exact absurd h (by decide)
  · have hnone : "\r\n#=,[]\x7b\x7d".toList.all (! ·.isDigit) := by decide
    simpa [h] using List.all_eq_true.1 hnone c hc

theorem hexValue?_digitChar :
    ∀ d < 10, hexValue? (Nat.digitChar d) = some d := by
  decide

/-- The digits of a number give the number. -/
theorem foldlM_toDigits {limit : Nat} (h : n < limit) :
    (Nat.toDigits 10 n).foldlM (fun n c => do
      let d ← hexValue? c
      if d < 10 ∧ 10 * n + d < limit then some (10 * n + d) else none) 0
      = some n := by
  induction n using Nat.strongRecOn with
  | ind n ih =>
      rw [Nat.toDigits_eq_if (by decide)]
      split
      · next hn =>
          simp [hexValue?_digitChar n hn, hn, h]
      · next hn =>
          have hmod := Nat.mod_lt n (show 10 > 0 by decide)
          rw [List.foldlM_append, ih (n / 10) (by omega) (by omega)]
          simp [hexValue?_digitChar _ hmod, hmod, Nat.div_add_mod, h]

theorem underscoresSeparate_digits {isDigit : Char → Bool}
    (h : ∀ a ∈ w, a.isDigit) : underscoresSeparate isDigit w := by
  unfold underscoresSeparate
  generalize false = after
  induction w generalizing after with
  | nil => rfl
  | cons a w ih =>
      obtain ⟨ha, hw⟩ := List.forall_mem_cons.1 h
      rw [underscoresSeparate.go]
      · exact ih hw _
      · rintro rfl
        exact absurd ha (by decide)

theorem integerValue_toDigits (h : n < 2 ^ (128 : Nat)) :
    integerValue 10 false (Nat.toDigits 10 n) = .integer n := by
  have hdigits : ∀ a ∈ Nat.toDigits 10 n, a ≠ '_' := by
    rintro a ha rfl
    exact absurd (isDigit_of_mem_toDigits n _ ha) (by decide)
  have hall : withoutUnderscores (Nat.toDigits 10 n) = Nat.toDigits 10 n :=
    List.filter_eq_self.2 fun a ha => decide_eq_true (hdigits a ha)
  have hheld : isHeld n := by
    simp only [isHeld, Bool.and_eq_true, decide_eq_true_eq]
    omega
  unfold integerValue digitsBelow?
  rw [hall, if_neg (by simp [Nat.toDigits_ne_nil]), foldlM_toDigits h]
  simp only [signed, Bool.false_eq_true, if_false, hheld, if_true]

/-- A word of digits is none of the words that are looked for before
numbers of base ten. -/
theorem scalarValue?_digits (hdigits : ∀ a ∈ c :: w, a.isDigit) :
    scalarValue? (c :: w) = digitValue? (c :: w) false (c :: w) := by
  obtain ⟨hc, hw⟩ := List.forall_mem_cons.1 hdigits
  have hfirst (a : Char) (ha : a.isDigit = false) : c ≠ a := by
    rintro rfl
    rw [hc] at ha
    cases ha
  have hsecond (a : Char) (ha : a.isDigit = false) (t) : w ≠ a :: t := by
    rintro rfl
    rw [hw a List.mem_cons_self] at ha
    cases ha
  have htrue : c :: w ≠ "true".toList := fun h =>
    hfirst 't' rfl (List.head_eq_of_cons_eq h)
  have hfalse : c :: w ≠ "false".toList := fun h =>
    hfirst 'f' rfl (List.head_eq_of_cons_eq h)
  have hsign : takeSign (c :: w) = (false, c :: w) := by
    unfold takeSign
    split
    · next h => exact absurd (List.cons.inj h).1 (hfirst '-' rfl)
    · next h => exact absurd (List.cons.inj h).1 (hfirst '+' rfl)
    · rfl
  unfold scalarValue?
  rw [if_neg htrue, if_neg hfalse, hsign]
  simp only
  split
  · next h => exact absurd (List.cons.inj h).1 (hfirst 'i' rfl)
  · next h => exact absurd (List.cons.inj h).1 (hfirst 'n' rfl)
  · next h => exact absurd (List.cons.inj h).2 (hsecond 'x' rfl _)
  · next h => exact absurd (List.cons.inj h).2 (hsecond 'o' rfl _)
  · next h => exact absurd (List.cons.inj h).2 (hsecond 'b' rfl _)
  · next h =>
      rw [← (List.cons.inj h).1, if_pos hc]
  · next h => cases h

theorem exists_digits (n : Nat) :
    ∃ c w, (toString n).toList = c :: w ∧ ∀ a ∈ c :: w, a.isDigit := by
  rw [show (toString n).toList = Nat.toDigits 10 n from Nat.toList_repr]
  obtain ⟨c, w, h⟩ := List.exists_cons_of_ne_nil
    (Nat.toDigits_ne_nil (n := n) (b := 10))
  exact ⟨c, w, h, h ▸ isDigit_of_mem_toDigits n⟩

/-- A natural that can be held is read from its digits. -/
theorem scalarValue?_natural (h : n < 2 ^ (128 : Nat)) :
    scalarValue? (toString n).toList = some (.integer n) := by
  have hdigits := isDigit_of_mem_toDigits n
  have hplain : plainInteger? false (Nat.toDigits 10 n)
      = some (.integer n) := by
    unfold plainInteger?
    rw [integerValue_toDigits h, underscoresSeparate_digits hdigits,
      if_pos]
    rcases Nat.eq_zero_or_pos n with rfl | hn
    · rfl
    · simp [head?_toDigits hn]
  have hvalue : digitValue? (Nat.toDigits 10 n) false (Nat.toDigits 10 n)
      = some (.integer n) := by
    unfold digitValue?
    rw [List.dropWhile_eq_nil_iff.2 hdigits]
    exact hplain
  obtain ⟨c, w, hw, hdigits⟩ := exists_digits n
  rw [show Nat.toDigits 10 n = c :: w from Nat.toList_repr.symm.trans hw]
    at hvalue
  rw [hw, scalarValue?_digits hdigits, hvalue]

end AdditiveDetail.Toml

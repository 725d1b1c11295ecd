/-
Numbers without a minus sign.

A sum from the left starts at minus zero, which changes nothing that is
added to it; a running sum starts at plus zero, which turns a minus zero
into a plus zero. So the two agree, bit for bit, as long as no minus zero
is added first. `Unsigned` rules it out: what has no minus sign keeps none
under sums, quotients, roots and ceilings (`Unsigned.add` and its
fellows), and `sum_eq_running` is what that comes to for a list.
-/
import AdditiveDetail.Binary.Arithmetic
import AdditiveDetail.Binary.Integral
import AdditiveDetail.Binary.Root

namespace AdditiveDetail

namespace Binary

variable {f : Format}

/-- Without a minus sign, zero included. A NaN has no sign. -/
def Unsigned : Binary f → Prop
  | .nan => True
  | .infinity s => s = false
  | .finite s _ _ _ => s = false

-- =================================================================== rounding

theorem zero_unsigned : (0 : Binary f).Unsigned := rfl

theorem ofParts_unsigned (m : Nat) (e : Int) :
    (ofParts false m e : Binary f).Unsigned := by
  unfold ofParts
  split <;> rfl

theorem carry_unsigned (m : Nat) (place : Int) :
    (carry false m place : Binary f).Unsigned := by
  unfold carry
  split
  · exact ofParts_unsigned m place
  · exact ofParts_unsigned _ (place + 1)

theorem roundScaled_unsigned (m : Nat) (e : Int) :
    (roundScaled false m e : Binary f).Unsigned := by
  unfold roundScaled
  split
  · rfl
  · exact carry_unsigned _ _

theorem round_unsigned (num den : Nat) :
    (round false num den : Binary f).Unsigned := by
  unfold round
  split
  · rfl
  · exact carry_unsigned _ _

theorem ofNat_unsigned (n : Nat) : (ofNat n : Binary f).Unsigned :=
  roundScaled_unsigned n 0

-- ================================================================= operations

theorem aligned_nonneg (m : Nat) (e unit : Int) : 0 ≤ aligned false m e unit :=
  Int.natCast_nonneg _

theorem Unsigned.add {x y : Binary f} (hx : x.Unsigned) (hy : y.Unsigned) :
    (x + y).Unsigned := by
  show (Binary.add x y).Unsigned
  cases x with
  | nan => trivial
  | infinity s =>
      obtain rfl : s = false := hx
      cases y with
      | nan => trivial
      | infinity t =>
          obtain rfl : t = false := hy
          rfl
      | finite => rfl
  | finite s m e h =>
      obtain rfl : s = false := hx
      cases y with
      | nan => trivial
      | infinity t => exact hy
      | finite t n d j =>
          obtain rfl : t = false := hy
          have hsum : ¬ aligned false m e (commonUnit m e n d)
              + aligned false n d (commonUnit m e n d) < 0 :=
            Int.not_lt.2 (Int.add_nonneg (aligned_nonneg ..) (aligned_nonneg ..))
          simp only [Binary.add, decide_eq_false hsum]
          split
          · rfl
          · exact roundScaled_unsigned _ _

theorem Unsigned.div {x y : Binary f} (hx : x.Unsigned) (hy : y.Unsigned) :
    (x / y).Unsigned := by
  show (Binary.div x y).Unsigned
  cases x with
  | nan => trivial
  | infinity s =>
      obtain rfl : s = false := hx
      cases y with
      | nan => trivial
      | infinity => trivial
      | finite t n d j =>
          obtain rfl : t = false := hy
          rfl
  | finite s m e h =>
      obtain rfl : s = false := hx
      cases y with
      | nan => trivial
      | infinity t =>
          obtain rfl : t = false := hy
          rfl
      | finite t n d j =>
          obtain rfl : t = false := hy
          simp only [Binary.div, Bool.xor_self]
          split
          · split
            · trivial
            · rfl
          · exact round_unsigned _ _

theorem Unsigned.cbrt {x : Binary f} (hx : x.Unsigned) : x.cbrt.Unsigned := by
  cases x with
  | nan => trivial
  | infinity s => exact hx
  | finite s m e h =>
      obtain rfl : s = false := hx
      simp only [Binary.cbrt]
      split
      · rfl
      · exact roundScaled_unsigned _ _

theorem Unsigned.ceil {x : Binary f} (hx : x.Unsigned) : x.ceil.Unsigned := by
  cases x with
  | nan => trivial
  | infinity s => exact hx
  | finite s m e h =>
      obtain rfl : s = false := hx
      exact roundScaled_unsigned _ 0

-- ======================================================================= sums

/-- To a number without a minus sign either zero may be added. -/
theorem minus_zero_add {x : Binary f} (hx : x.Unsigned) :
    zero true + x = 0 + x := by
  show Binary.add (zero true) x = Binary.add (zero false) x
  cases x with
  | nan => rfl
  | infinity t => rfl
  | finite t n d j =>
      obtain rfl : t = false := hx
      have hzero (s : Bool) (unit : Int) :
          aligned s 0 f.minExponent unit = 0 := by
        cases s <;> simp [aligned]
      simp only [Binary.add, zero, hzero, Bool.and_false]

theorem running_unsigned {xs : List (Binary f)} (h : ∀ x ∈ xs, x.Unsigned)
    {start : Binary f} (hstart : start.Unsigned) :
    (xs.foldl (· + ·) start).Unsigned := by
  induction xs generalizing start with
  | nil => exact hstart
  | cons x xs ih =>
      exact ih (fun y hy => h y (List.mem_cons_of_mem x hy))
        (hstart.add (h x List.mem_cons_self))

/-- The sum of a list is what a running sum from plus zero comes to. -/
theorem sum_eq_running {xs : List (Binary f)} (hne : xs ≠ [])
    (h : ∀ x ∈ xs, x.Unsigned) : sum xs = xs.foldl (· + ·) 0 := by
  cases xs with
  | nil => exact absurd rfl hne
  | cons x xs =>
      unfold sum
      rw [List.foldl_cons, List.foldl_cons,
        minus_zero_add (h x List.mem_cons_self)]

theorem sum_unsigned {xs : List (Binary f)} (hne : xs ≠ [])
    (h : ∀ x ∈ xs, x.Unsigned) : (sum xs).Unsigned := by
  rw [sum_eq_running hne h]
  exact running_unsigned h zero_unsigned

/-- The mean of a list, by a running sum and a count. -/
theorem mean_eq_running {xs : List (Binary f)} (h : ∀ x ∈ xs, x.Unsigned) :
    mean xs = if 0 < xs.length then xs.foldl (· + ·) 0 / ofNat xs.length
      else 0 := by
  cases xs with
  | nil => rfl
  | cons x xs =>
      rw [← sum_eq_running (List.cons_ne_nil x xs) h]
      rfl

end Binary

end AdditiveDetail

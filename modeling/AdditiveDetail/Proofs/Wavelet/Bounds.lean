/-
How far the sums and the results of a pass can reach.

# Two arithmetics

`Transform.pass` forms its sum over the integers. A machine forms it in a
register of 32 bits, product by product, and keeps sixteen bits of the
scaled sum. `Transform.passChecked` is the pass on a machine that stops as
soon as its register does not hold a product or a sum, or sixteen bits do
not hold the result. Where it does not stop, it gives what `pass` gives.

# Bounds

Whether it stops is decided on BOUNDS: two integers that every sample of
the pass lies between. A tap carries bounds of its sample to bounds of its
product, with the ends exchanged where the tap is negative; what becomes
of the sums follows tap by tap. The two ends are kept apart and not
replaced by a magnitude: a low-pass filter of mostly positive taps, put
on samples that are mostly positive, does not reach nearly as far down as
it reaches up, and over four levels that is the difference between
sixteen bits and seventeen.
-/
import AdditiveDetail.Wavelet.Transform

namespace AdditiveDetail

-- one power on naturals, whatever else is imported
attribute [local instance(high)] instPowNat

/-- The integers from `lo` to `hi`. -/
structure Bounds where
  lo : Int
  hi : Int
  deriving DecidableEq

namespace Bounds

instance : Membership Int Bounds := ⟨fun b x => b.lo ≤ x ∧ x ≤ b.hi⟩

instance (x : Int) (b : Bounds) : Decidable (x ∈ b) :=
  inferInstanceAs (Decidable (b.lo ≤ x ∧ x ≤ b.hi))

instance : LE Bounds := ⟨fun b c => c.lo ≤ b.lo ∧ b.hi ≤ c.hi⟩

instance (b c : Bounds) : Decidable (b ≤ c) :=
  inferInstanceAs (Decidable (c.lo ≤ b.lo ∧ b.hi ≤ c.hi))

theorem mem_of_le {b c : Bounds} (h : b ≤ c) {x : Int} (hx : x ∈ b) : x ∈ c :=
  ⟨Int.le_trans h.1 hx.1, Int.le_trans hx.2 h.2⟩

/-- What a register of 32 bits holds. -/
def register : Bounds := ⟨-2 ^ (31 : Nat), 2 ^ (31 : Nat) - 1⟩

/-- What a sample of sixteen bits holds. -/
def sample : Bounds := ⟨-2 ^ (15 : Nat), 2 ^ (15 : Nat) - 1⟩

-- ============================================================ the operations

/-- Bounds of a product. -/
def times (b : Bounds) (c : Int) : Bounds :=
  if 0 ≤ c then ⟨c * b.lo, c * b.hi⟩ else ⟨c * b.hi, c * b.lo⟩

theorem times_mem {b : Bounds} {x : Int} (hx : x ∈ b) (c : Int) :
    c * x ∈ b.times c := by
  obtain ⟨hlo, hhi⟩ := hx
  unfold times
  by_cases hc : 0 ≤ c
  · rw [if_pos hc]
    exact ⟨Int.mul_le_mul_of_nonneg_left hlo hc,
      Int.mul_le_mul_of_nonneg_left hhi hc⟩
  · have hc' : c ≤ 0 := by omega
    rw [if_neg hc]
    exact ⟨Int.mul_le_mul_of_nonpos_left hc' hhi,
      Int.mul_le_mul_of_nonpos_left hc' hlo⟩

/-- Bounds of a sum. -/
def plus (b c : Bounds) : Bounds := ⟨b.lo + c.lo, b.hi + c.hi⟩

theorem plus_mem {b c : Bounds} {x y : Int} (hx : x ∈ b) (hy : y ∈ c) :
    x + y ∈ b.plus c :=
  ⟨Int.add_le_add hx.1 hy.1, Int.add_le_add hx.2 hy.2⟩

/-- Bounds of a sum that is scaled down. -/
def scaledDown (b : Bounds) : Bounds := ⟨scaleDown b.lo, scaleDown b.hi⟩

/-- Rounding down keeps the order. -/
theorem scaledDown_mem {b : Bounds} {x : Int} (hx : x ∈ b) :
    scaleDown x ∈ b.scaledDown :=
  ⟨Int.ediv_le_ediv (by decide) hx.1, Int.ediv_le_ediv (by decide) hx.2⟩

end Bounds

-- ============================================================== running sums

/-- Add weighted samples to a sum, one after the other, in a register: stop
as soon as it does not hold a product or a sum. -/
def accumulate : Int → List (Int × Int) → Option Int
  | sum, [] => some sum
  | sum, (weight, x) :: rest =>
      if weight * x ∈ Bounds.register ∧
          sum + weight * x ∈ Bounds.register then
        accumulate (sum + weight * x) rest
      else none

/-- A sum that was formed in a register is the sum over the integers. -/
theorem accumulate_sound {terms : List (Int × Int)} {z r : Int}
    (h : accumulate z terms = some r) :
    r = terms.foldl (fun sum term => sum + term.1 * term.2) z := by
  induction terms generalizing z with
  | nil => exact (Option.some.inj h).symm
  | cons term rest ih =>
      unfold accumulate at h
      split at h
      · exact ih h
      · cases h

namespace Bounds

/-- Bounds of the sum, from bounds of what it starts with and of the
samples. -/
def summed (b : Bounds) : Bounds → List Int → Bounds
  | sum, [] => sum
  | sum, weight :: rest => b.summed (sum.plus (b.times weight)) rest

/-- A register holds every product and every sum on the way. -/
def Accumulates (b : Bounds) : Bounds → List Int → Prop
  | _, [] => True
  | sum, weight :: rest =>
      b.times weight ≤ register ∧ sum.plus (b.times weight) ≤ register ∧
        b.Accumulates (sum.plus (b.times weight)) rest

instance decidableAccumulates (b : Bounds) :
    (sum : Bounds) → (weights : List Int) →
      Decidable (b.Accumulates sum weights)
  | _, [] => inferInstanceAs (Decidable True)
  | sum, weight :: rest =>
      have := b.decidableAccumulates (sum.plus (b.times weight)) rest
      inferInstanceAs (Decidable (_ ∧ _ ∧ _))

/-- Every sum on the way stays within the bounds that the weights added so
far make of those of the samples, so the register is never left. -/
theorem accumulate_eq {b : Bounds} {terms : List (Int × Int)}
    (hx : ∀ term ∈ terms, term.2 ∈ b) {start : Bounds} {z : Int}
    (hz : z ∈ start) (h : b.Accumulates start (terms.map Prod.fst)) :
    accumulate z terms
        = some (terms.foldl (fun sum term => sum + term.1 * term.2) z) ∧
      terms.foldl (fun sum term => sum + term.1 * term.2) z
        ∈ b.summed start (terms.map Prod.fst) := by
  induction terms generalizing start z with
  | nil => exact ⟨rfl, hz⟩
  | cons term rest ih =>
      obtain ⟨hproduct, hsum, hrest⟩ := h
      have hterm := times_mem (hx term List.mem_cons_self) term.1
      have hnext := plus_mem hz hterm
      obtain ⟨heq, hmem⟩ := ih
        (fun t ht => hx t (List.mem_cons_of_mem term ht)) hnext hrest
      refine ⟨?_, hmem⟩
      unfold accumulate
      rw [if_pos ⟨mem_of_le hproduct hterm, mem_of_le hsum hnext⟩]
      exact heq

end Bounds

-- ================================================================== one pass

/-- The weighted sum of four samples, formed in a register. -/
def Taps.accumulated (t : Taps) (x : Quad Int) : Option Int :=
  accumulate 0 [(t.t0, x.x0), (t.t1, x.x1), (t.t2, x.x2), (t.t3, x.x3)]

/-- One pass of one filter on a machine that stops where its register does
not hold a product or a sum and, for a `lossless` pass, where sixteen bits
do not hold the result. -/
def Transform.passChecked (lossless : Bool) (t : Taps) (x : Quad Int) :
    Option Int16 := do
  let sum ← t.accumulated x
  if lossless → scaleDown sum ∈ Bounds.sample then
    return narrow (scaleDown sum)
  else none

/-- A checked pass that does not stop gives what the pass gives, and a
lossless one the scaled sum itself. -/
theorem Transform.passChecked_sound {lossless : Bool} {t : Taps}
    {x : Quad Int} {y : Int16} (h : passChecked lossless t x = some y) :
    y = pass t x ∧ (lossless → y.toInt = scaleDown (t.response x)) := by
  unfold passChecked at h
  obtain ⟨sum, hsum, h⟩ := Option.bind_eq_some_iff.1 h
  obtain rfl : sum = t.response x := by
    -- the running sum starts at zero, `response` with the first product
    have hfold := accumulate_sound hsum
    simp only [List.foldl_cons, List.foldl_nil, Int.zero_add] at hfold
    exact hfold
  by_cases hfits : lossless → scaleDown (t.response x) ∈ Bounds.sample
  · rw [if_pos hfits] at h
    obtain rfl := Option.some.inj h
    exact ⟨rfl, fun hl => toInt_narrow_of_mem (hfits hl).1 (hfits hl).2⟩
  · rw [if_neg hfits] at h
    cases h

namespace Bounds

/-- Bounds of the scaled result of a pass, before it is narrowed. -/
def filtered (b : Bounds) (t : Taps) : Bounds :=
  (b.summed ⟨0, 0⟩ t.toList).scaledDown

/-- A pass over samples within the bounds has headroom: for its sums and,
where it is to be lossless, for its result. -/
def Headroom (b : Bounds) (t : Taps) (lossless : Bool) : Prop :=
  b.Accumulates ⟨0, 0⟩ t.toList ∧ (lossless → b.filtered t ≤ sample)

instance (b : Bounds) (t : Taps) (lossless : Bool) :
    Decidable (b.Headroom t lossless) :=
  inferInstanceAs (Decidable (_ ∧ _))

variable {b : Bounds} {t : Taps} {lossless : Bool}

theorem Headroom.accumulated_eq (h : b.Headroom t lossless) {x : Quad Int}
    (h0 : x.x0 ∈ b) (h1 : x.x1 ∈ b) (h2 : x.x2 ∈ b) (h3 : x.x3 ∈ b) :
    ∃ sum, t.accumulated x = some sum ∧ scaleDown sum ∈ b.filtered t := by
  have hterms : ∀ term ∈
      [(t.t0, x.x0), (t.t1, x.x1), (t.t2, x.x2), (t.t3, x.x3)],
      term.2 ∈ b := by
    simp only [List.forall_mem_cons]
    exact ⟨h0, h1, h2, h3, fun _ hmem => absurd hmem List.not_mem_nil⟩
  have hzero : (0 : Int) ∈ (⟨0, 0⟩ : Bounds) := by decide
  obtain ⟨heq, hmem⟩ := accumulate_eq hterms hzero h.1
  exact ⟨_, heq, scaledDown_mem hmem⟩

variable {α : Type} {g : α → Int}

theorem Headroom.exists_passChecked (h : b.Headroom t lossless)
    (hg : ∀ a, g a ∈ b) (q : Quad α) :
    ∃ y, Transform.passChecked lossless t (q.map g) = some y ∧
      (lossless → y.toInt ∈ b.filtered t) := by
  obtain ⟨sum, hsum, hmem⟩ := h.accumulated_eq (x := q.map g)
    (hg q.x0) (hg q.x1) (hg q.x2) (hg q.x3)
  have hfits : lossless → scaleDown sum ∈ sample :=
    fun hl => mem_of_le (h.2 hl) hmem
  refine ⟨narrow (scaleDown sum), ?_, fun hl => ?_⟩
  · unfold Transform.passChecked
    rw [hsum]
    exact if_pos hfits
  · rw [toInt_narrow_of_mem (hfits hl).1 (hfits hl).2]
    exact hmem

/-- A pass with headroom does not stop. -/
theorem Headroom.passChecked_eq (h : b.Headroom t lossless)
    (hg : ∀ a, g a ∈ b) (q : Quad α) :
    Transform.passChecked lossless t (q.map g)
      = some (Transform.pass t (q.map g)) := by
  obtain ⟨y, hy, -⟩ := h.exists_passChecked hg q
  rw [hy, (Transform.passChecked_sound hy).1]

/-- A lossless pass with headroom stays within the bounds. -/
theorem Headroom.pass_mem (h : b.Headroom t true) (hg : ∀ a, g a ∈ b)
    (q : Quad α) :
    (Transform.pass t (q.map g)).toInt ∈ b.filtered t := by
  obtain ⟨y, hy, hmem⟩ := h.exists_passChecked hg q
  rw [← (Transform.passChecked_sound hy).1]
  exact hmem rfl

/-- A lossless pass with headroom gives the scaled sum itself. -/
theorem Headroom.toInt_pass (h : b.Headroom t true) (hg : ∀ a, g a ∈ b)
    (q : Quad α) :
    (Transform.pass t (q.map g)).toInt = scaleDown (t.response (q.map g)) :=
  (Transform.passChecked_sound (h.passChecked_eq hg q)).2 rfl

/-- The sum of a pass lies within the bounds that the taps make of those of
the samples, whether a register holds it or not. -/
theorem response_mem (t : Taps) (hg : ∀ a, g a ∈ b) (q : Quad α) :
    t.response (q.map g) ∈ b.summed ⟨0, 0⟩ t.toList := by
  have hzero : (0 : Int) ∈ (⟨0, 0⟩ : Bounds) := by decide
  have hterm (a : α) (weight : Int) := times_mem (hg a) weight
  have hsum := plus_mem (plus_mem (plus_mem (plus_mem hzero
    (hterm q.x0 t.t0)) (hterm q.x1 t.t1)) (hterm q.x2 t.t2)) (hterm q.x3 t.t3)
  rw [Int.zero_add] at hsum
  exact hsum

end Bounds

-- ======================================================== the filters in use

/-- The weights that the coefficients round to. -/
theorem FilterBank.daubechies_eq : daubechies
    = ⟨⟨15826, 27411, 7345, -4240⟩, ⟨-4240, -7345, 27411, -15826⟩⟩ := by
  decide +kernel

end AdditiveDetail

/-
Where filters read past an edge.

# Two ways to say it

`reflect` takes the magnitude of an index modulo twice the size of the row,
and so is defined for every index. The rule that it stands for is said
without a modulus: take the magnitude, and fold it ONCE at the far edge
(`foldedOnce`). The two agree below twice the size, and the rule leaves the
row beyond that. It is not symmetric: at zero the first sample is not
repeated, at the far edge the last one is.

# The reach of the windows

No window goes that far. The last output of the transform is made from
samples up to two behind the end of an odd row, and up to one behind that
of an even row; the neighbourhood of a place ends one sample behind either
end. Two samples behind the end are below twice the size as soon as the row
has two samples itself (`natAbs_span_lt`, `natAbs_neighbour_lt`), so what
the transform and the masking read is what the rule says.
-/
import AdditiveDetail.Detail.Masking
import AdditiveDetail.Wavelet.Transform

namespace AdditiveDetail

-- one power on naturals, whatever else is imported
attribute [local instance(high)] instPowNat

-- =================================================================== the rule

/-- The documented rule: the magnitude of an index, folded once at the far
edge of a row of `n` samples. -/
def foldedOnce (i : Int) (n : Nat) : Int :=
  if (n : Int) ≤ i.natAbs then 2 * n - i.natAbs - 1 else i.natAbs

/-- Below twice the size one fold is enough. -/
theorem reflect_eq_foldedOnce {i : Int} {n : Nat} (h : i.natAbs < 2 * n) :
    (reflect i n : Int) = foldedOnce i n := by
  unfold reflect foldedOnce
  by_cases hone : n ≤ 1
  · rw [if_pos hone]
    split <;> omega
  · rw [if_neg hone]
    simp only [Nat.mod_eq_of_lt h]
    by_cases hlt : i.natAbs < n
    · rw [if_pos hlt, if_neg (by omega)]
    · rw [if_neg hlt, if_pos (by omega)]
      omega

-- =========================================================== all other indices

/-- The sign of an index does not matter: the row is continued by its own
reflection. -/
theorem reflect_neg (i : Int) (n : Nat) : reflect (-i) n = reflect i n := by
  unfold reflect
  rw [Int.natAbs_neg]

/-- The continued row repeats. -/
theorem reflect_add_period {i : Int} (hi : 0 ≤ i) (n : Nat) :
    reflect (i + 2 * n) n = reflect i n := by
  have habs : (i + 2 * n).natAbs = i.natAbs + 2 * n := by omega
  unfold reflect
  rw [habs, Nat.add_mod_right]

-- ============================================================ in machine words

/-- A word of the machine; none where a number is too great for one. -/
def word? (n : Nat) : Option Nat :=
  if n ≤ Allocation.maxWord then some n else none

/-- A difference of words; none where it would be below zero. -/
def difference? (a b : Nat) : Option Nat :=
  if b ≤ a then some (a - b) else none

/-- `reflect` on a machine that stops at a magnitude, a product or a
difference that is not a word. -/
def reflectChecked (i : Int) (n : Nat) : Option Nat :=
  if n ≤ 1 then some 0
  else do
    let period ← word? (2 * n)
    let magnitude ← word? i.natAbs
    let m := magnitude % period
    if m < n then return m
    let last ← difference? period 1
    difference? last m

/-- The machine does not stop, as long as the period and the magnitude of the
index are words. -/
theorem reflectChecked_eq {i : Int} {n : Nat}
    (hn : 2 * n ≤ Allocation.maxWord) (hi : i.natAbs ≤ Allocation.maxWord) :
    reflectChecked i n = some (reflect i n) := by
  unfold reflectChecked reflect
  by_cases hone : n ≤ 1
  · rw [if_pos hone, if_pos hone]
  · have hmod : i.natAbs % (2 * n) < 2 * n := Nat.mod_lt _ (by omega)
    have hperiod : word? (2 * n) = some (2 * n) := if_pos hn
    have hmagnitude : word? i.natAbs = some i.natAbs := if_pos hi
    have hlast : difference? (2 * n) 1 = some (2 * n - 1) := if_pos (by omega)
    have hrest : difference? (2 * n - 1) (i.natAbs % (2 * n))
        = some (2 * n - 1 - i.natAbs % (2 * n)) := if_pos (by omega)
    rw [if_neg hone, if_neg hone, hperiod, hmagnitude]
    simp only [Option.bind_eq_bind, Option.bind_some, hlast, hrest]
    split <;> rfl

-- ================================================================= the windows

/-- The source indices that output `i` of the transform is made from, before
they are reflected. -/
def span (i : Nat) : Quad Int where
  x0 := 2 * i - 1
  x1 := 2 * i
  x2 := 2 * i + 1
  x3 := 2 * i + 2

/-- The last output of a row is made from samples up to two behind its end. -/
theorem natAbs_span_lt {n i k : Nat} (hn : 2 ≤ n) (hi : i < (n + 1) / 2)
    (hk : k < 4) : (2 * i - 1 + k : Int).natAbs < 2 * n := by
  omega

/-- The neighbourhood of a place ends one sample behind either end. -/
theorem natAbs_neighbour_lt {n i k : Nat} (hn : 2 ≤ n) (hi : i < n)
    (hk : k < 3) : (i - 1 + k : Int).natAbs < 2 * n := by
  omega

/-- The samples that an output of the transform reaches are those that the
rule gives for its span. -/
theorem reach_eq_foldedOnce {n : Nat} (h : 0 < n) (hn : 2 ≤ n) {i : Nat}
    (hi : i < (n + 1) / 2) :
    (reach i h).map (fun x => (x.val : Int))
      = (span i).map fun x => foldedOnce x n := by
  have hrule {x : Int} {k : Nat} (hk : k < 4) (hx : x = 2 * i - 1 + k) :
      (reflect x n : Int) = foldedOnce x n := by
    rw [hx]
    exact reflect_eq_foldedOnce (natAbs_span_lt hn hi hk)
  have h0 := hrule (x := 2 * i - 1) (k := 0) (by decide) (by omega)
  have h1 := hrule (x := 2 * i) (k := 1) (by decide) (by omega)
  have h2 := hrule (x := 2 * i + 1) (k := 2) (by decide) (by omega)
  have h3 := hrule (x := 2 * i + 2) (k := 3) (by decide) (by omega)
  simp only [reach, span, Quad.map, reflectIn, h0, h1, h2, h3]

/-- A neighbour along an axis stands where the rule says. -/
theorem reflect_neighbour {n i k : Nat} (hn : 2 ≤ n) (hi : i < n) (hk : k < 3)
    {x : Int} (hx : x = i - 1 + k) : (reflect x n : Int) = foldedOnce x n := by
  rw [hx]
  exact reflect_eq_foldedOnce (natAbs_neighbour_lt hn hi hk)

-- =============================================================== the whole law

/-- How the indices of an axis of `n` samples are reflected: all of them, and
those of the windows by the rule. -/
structure Reflects (n : Nat) : Prop where
  lt : ∀ i : Int, reflect i n < n
  neg : ∀ i : Int, reflect (-i) n = reflect i n
  add_period : ∀ i : Int, 0 ≤ i → reflect (i + 2 * n) n = reflect i n
  words : n < 2 ^ (61 : Nat) → ∀ i : Int, i.natAbs ≤ 2 ^ (63 : Nat) →
    reflectChecked i n = some (reflect i n)
  spans : 2 ≤ n → ∀ i k : Nat, i < (n + 1) / 2 → k < 4 →
    (reflect (2 * i - 1 + k) n : Int) = foldedOnce (2 * i - 1 + k) n
  neighbours : 2 ≤ n → ∀ i k : Nat, i < n → k < 3 →
    (reflect (i - 1 + k) n : Int) = foldedOnce (i - 1 + k) n

/-- What the transform and the masking read of a picture stands where the rule
says, on each axis that has two samples. -/
structure ReadsByRule (d : Dims) (h : d.Nonempty) : Prop where
  rows : 2 ≤ d.height → ∀ i < d.half.height,
    (reach i h.height_pos).map (fun r => (r.val : Int))
      = (span i).map fun x => foldedOnce x d.height
  columns : 2 ≤ d.width → ∀ j < d.half.width,
    (reach j h.width_pos).map (fun c => (c.val : Int))
      = (span j).map fun x => foldedOnce x d.width
  above_below : 2 ≤ d.height → ∀ (i : Fin d.height) (j : Fin d.width),
    ((Masking.around h i j).above.val : Int) = foldedOnce (i - 1) d.height ∧
    ((Masking.around h i j).row.val : Int) = foldedOnce i d.height ∧
    ((Masking.around h i j).below.val : Int) = foldedOnce (i + 1) d.height
  left_right : 2 ≤ d.width → ∀ (i : Fin d.height) (j : Fin d.width),
    ((Masking.around h i j).left.val : Int) = foldedOnce (j - 1) d.width ∧
    ((Masking.around h i j).column.val : Int) = foldedOnce j d.width ∧
    ((Masking.around h i j).right.val : Int) = foldedOnce (j + 1) d.width

theorem reflects_of_pos {n : Nat} (h : 0 < n) : Reflects n where
  lt i := reflect_lt i h
  neg i := reflect_neg i n
  add_period i hi := reflect_add_period hi n
  words hn i hi := by
    apply reflectChecked_eq
    · unfold Allocation.maxWord
      omega
    · unfold Allocation.maxWord
      omega
  spans hn i k hi hk := reflect_eq_foldedOnce (natAbs_span_lt hn hi hk)
  neighbours hn i k hi hk := reflect_neighbour hn hi hk rfl

/-- An index of the row is one that the rule leaves alone. -/
theorem foldedOnce_val {n : Nat} (i : Fin n) : foldedOnce i n = i := by
  unfold foldedOnce
  rw [if_neg (by omega)]
  omega

theorem readsByRule (d : Dims) (h : d.Nonempty) : ReadsByRule d h where
  rows hn i hi := by
    apply reach_eq_foldedOnce h.height_pos hn
    unfold Dims.half at hi
    simp only at hi
    omega
  columns hn j hj := by
    apply reach_eq_foldedOnce h.width_pos hn
    unfold Dims.half at hj
    simp only at hj
    omega
  above_below hn i j :=
    ⟨reflect_neighbour hn i.isLt (k := 0) (by decide) (by omega),
      (foldedOnce_val i).symm,
      reflect_neighbour hn i.isLt (k := 2) (by decide) (by omega)⟩
  left_right hn i j :=
    ⟨reflect_neighbour hn j.isLt (k := 0) (by decide) (by omega),
      (foldedOnce_val j).symm,
      reflect_neighbour hn j.isLt (k := 2) (by decide) (by omega)⟩

/-- READING PAST AN EDGE: a reflected index is in bounds, whatever its size
and sign, and on a machine it is computed without overflow. Where the
transform and the masking read, it is the magnitude of the index, folded once
at the far edge. -/
theorem reflection_followsRule :
    (∀ n, 0 < n → Reflects n) ∧
      ∀ (d : Dims) (h : d.Nonempty), ReadsByRule d h := by
  constructor
  · intro n h
    exact reflects_of_pos h
  · intro d h
    exact readsByRule d h

/-- An odd row, where the last window of the transform is folded back by two
samples, and an even one. -/
theorem reflection_followsRule_odd : ∃ h : Dims.Nonempty ⟨5, 2⟩,
    (2 ≤ 5 ∧ 2 < (Dims.mk 5 2).half.width ∧
      (reach 2 h.width_pos).map (fun c => (c.val : Int)) = ⟨3, 4, 4, 3⟩) ∧
    (2 ≤ 2 ∧ 0 < (Dims.mk 5 2).half.height ∧
      (reach 0 h.height_pos).map (fun r => (r.val : Int)) = ⟨1, 0, 1, 1⟩) ∧
    (0 < 5 ∧ reflect (-(-1)) 5 = reflect (-1) 5 ∧ foldedOnce (-1) 5 = 1) := by
  have h : Dims.Nonempty ⟨5, 2⟩ := by decide
  obtain ⟨haxis, hpicture⟩ := reflection_followsRule
  have hcolumns := (hpicture ⟨5, 2⟩ h).columns (by decide) 2 (by decide)
  have hrows := (hpicture ⟨5, 2⟩ h).rows (by decide) 0 (by decide)
  have hneg := (haxis 5 (by decide)).neg (-1)
  refine ⟨h, ⟨by decide, by decide, hcolumns.trans (by decide)⟩,
    ⟨by decide, by decide, hrows.trans (by decide)⟩, by decide, hneg,
    by decide⟩

/-- The rule leaves a row of one sample, which the reflection does not. -/
example : foldedOnce 2 1 = -1 ∧ reflect 2 1 = 0 := by decide

end AdditiveDetail

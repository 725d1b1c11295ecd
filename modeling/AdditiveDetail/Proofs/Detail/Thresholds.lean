/-
The arithmetic of masking is exact.

# Thresholds

`Masking.exactSum` writes the threshold of a place down over the integers:
for each orientation the magnitude of the place and those of its eight
neighbours, weighted, summed and scaled down. `Masking.thresholdChecked`
forms it on a machine that stops as soon as a register of 32 bits does not
hold a product or a sum of a neighbourhood, or sixteen bits do not hold
what is added to the threshold or the threshold so far. It never stops,
whatever the samples are (`thresholdChecked_eq`): three neighbourhoods of
greatest samples end four below the greatest sample.

# One scale

What is weighted by visibility fits the register and sixteen bits, and is
1497 at the most. So is then what masking leaves.
-/
import AdditiveDetail.Proofs.Detail.Reach
import AdditiveDetail.Proofs.Wavelet.Bounds
import AdditiveDetail.Scoring.Arena

namespace AdditiveDetail

variable {d : Dims}

namespace Masking

-- ======================================================= the exact thresholds

/-- From a place to its eight neighbours, by rows and columns. -/
def neighbours : List (Int × Int) :=
  [(-1, -1), (-1, 0), (-1, 1), (0, -1), (0, 1), (1, -1), (1, 0), (1, 1)]

/-- The magnitude at a row and a column that may lie past an edge. -/
def magnitude (band : Raster Int16 d) (h : d.Nonempty) (i j : Int) : Int :=
  |(band (reflectIn i (Dims.Nonempty.height_pos h))
    (reflectIn j (Dims.Nonempty.width_pos h))).toInt|

/-- What a band adds to the threshold of a place. -/
def addend (band : Raster Int16 d) (h : d.Nonempty) (i : Fin d.height)
    (j : Fin d.width) : Int :=
  scaleDown (2185 * |(band i j).toInt|
    + 1092 * (neighbours.map fun p =>
        magnitude band h (i.val + p.1) (j.val + p.2)).sum)

/-- The threshold of a place over the integers. -/
def exactSum (impairment : Orientation → Raster Int16 d) (h : d.Nonempty)
    (i : Fin d.height) (j : Fin d.width) : Int :=
  (Orientation.all.map fun o => addend (impairment o) h i j).sum

/-- An index in bounds is not reflected. -/
theorem reflectIn_val {n : ℕ} (i : Fin n) (h : 0 < n) :
    reflectIn i.val h = i := by
  apply Fin.ext
  show reflect i.val n = i
  have hi := i.isLt
  unfold reflect
  rw [Int.natAbs_natCast, Nat.mod_eq_of_lt (by omega)]
  split
  · omega
  · exact if_pos hi

theorem scaleDown_neighbourhood (band : Raster Int16 d) (h : d.Nonempty)
    (i : Fin d.height) (j : Fin d.width) :
    scaleDown (neighbourhood band (around h i j)) = addend band h i j := by
  have habs (k : Fin d.height) (l : Fin d.width) :
      ((band k l).toInt.natAbs : ℤ) = |(band k l).toInt| :=
    (Int.abs_eq_natAbs _).symm
  unfold addend neighbourhood
  congr 1
  simp only [neighbours, magnitude, around, neighbourWeight_eq,
    centreWeight_eq, habs, List.map_cons, List.map_nil, List.sum_cons,
    List.sum_nil, add_zero, reflectIn_val, ← sub_eq_add_neg]
  ring

theorem toInt_threshold_eq_exactSum
    (impairment : Orientation → Raster Int16 d) (h : d.Nonempty)
    (i : Fin d.height) (j : Fin d.width) :
    (threshold impairment h i j).toInt = exactSum impairment h i j := by
  rw [toInt_threshold]
  simp only [scaleDown_neighbourhood]
  rfl

-- ================================================================ the machine

/-- The weighted magnitudes of a neighbourhood, row by row. -/
def terms (band : Raster Int16 d) (s : Surroundings d) : List (Int × Int) :=
  let near (i : Fin d.height) (j : Fin d.width) : Int :=
    (band i j).toInt.natAbs
  [(neighbourWeight, near s.above s.left),
    (neighbourWeight, near s.above s.column),
    (neighbourWeight, near s.above s.right),
    (neighbourWeight, near s.row s.left),
    (centreWeight, near s.row s.column),
    (neighbourWeight, near s.row s.right),
    (neighbourWeight, near s.below s.left),
    (neighbourWeight, near s.below s.column),
    (neighbourWeight, near s.below s.right)]

/-- Add an integer to a sample; stop where sixteen bits do not hold the
integer or the sum. -/
def addChecked (total : Int16) (x : Int) : Option Int16 :=
  if x ∈ Bounds.sample ∧ total.toInt + x ∈ Bounds.sample then
    some (total + narrow x)
  else none

/-- The threshold of a place on a machine that stops where a register or
sixteen bits do not hold an integer on the way. -/
def thresholdChecked (impairment : Orientation → Raster Int16 d)
    (h : d.Nonempty) (i : Fin d.height) (j : Fin d.width) : Option Int16 :=
  Orientation.all.foldlM (fun total o => do
    let sum ← accumulate 0 (terms (impairment o) (around h i j))
    addChecked total (scaleDown sum)) 0

/-- Magnitudes of samples leave room in the register for all nine of
them. -/
theorem accumulate_terms (band : Raster Int16 d) (s : Surroundings d) :
    accumulate 0 (terms band s) = some (neighbourhood band s) := by
  have hterms : ∀ term ∈ terms band s, term.2 ∈ (⟨0, 2 ^ 15⟩ : Bounds) := by
    have hnear (i : Fin d.height) (j : Fin d.width) :
        ((band i j).toInt.natAbs : ℤ) ∈ (⟨0, 2 ^ 15⟩ : Bounds) := by
      have := (band i j).le_toInt
      have := (band i j).toInt_lt
      show 0 ≤ _ ∧ _ ≤ (2 : ℤ) ^ 15
      omega
    intro term hterm
    simp only [terms, List.mem_cons, List.not_mem_nil, or_false] at hterm
    rcases hterm with rfl | rfl | rfl | rfl | rfl | rfl | rfl | rfl | rfl <;>
      exact hnear _ _
  have hroom : (⟨0, 2 ^ 15⟩ : Bounds).Accumulates ⟨0, 0⟩
      ((terms band s).map Prod.fst) := by
    simp only [terms, neighbourWeight_eq, centreWeight_eq, List.map_cons,
      List.map_nil]
    decide
  obtain ⟨heq, -⟩ := Bounds.accumulate_eq (z := 0) hterms (by decide) hroom
  rw [heq]
  congr 1
  simp only [terms, neighbourhood, List.foldl_cons, List.foldl_nil]
  ring

/-- Integers that are not below zero, and have a sum that is a sample, do
not stop the machine. -/
theorem foldlM_addChecked (xs : List ℤ) (total : Int16)
    (h0 : 0 ≤ total.toInt) (hxs : ∀ x ∈ xs, 0 ≤ x)
    (h : total.toInt + xs.sum ≤ 32767) :
    xs.foldlM addChecked total
      = some (xs.foldl (fun sum x => sum + narrow x) total) := by
  induction xs generalizing total with
  | nil => rfl
  | cons x xs ih =>
      rw [List.forall_mem_cons] at hxs
      have hrest := List.sum_nonneg hxs.2
      rw [List.sum_cons] at h
      have hstep := toInt_add_narrow h0 hxs.1 (by omega)
      have hadd : addChecked total x = some (total + narrow x) := by
        refine if_pos ?_
        show (-2 ^ 15 ≤ x ∧ x ≤ 2 ^ 15 - 1) ∧
          -2 ^ 15 ≤ total.toInt + x ∧ total.toInt + x ≤ 2 ^ 15 - 1
        omega
      rw [List.foldlM_cons, hadd, List.foldl_cons]
      exact ih _ (by omega) hxs.2 (by omega)

/-- The machine does not stop, and forms the threshold. -/
theorem thresholdChecked_eq (impairment : Orientation → Raster Int16 d)
    (h : d.Nonempty) (i : Fin d.height) (j : Fin d.width) :
    thresholdChecked impairment h i j = some (threshold impairment h i j) := by
  obtain ⟨-, hle⟩ := sum_neighbourhoods_bounds impairment (around h i j)
  have hfold := foldlM_addChecked (Orientation.all.map fun o =>
      scaleDown (neighbourhood (impairment o) (around h i j))) 0 le_rfl
    (neighbourhoods_nonneg impairment _) (by rw [Int16.toInt_zero]; omega)
  rw [List.foldlM_map, List.foldl_map] at hfold
  unfold thresholdChecked
  simp only [accumulate_terms, Option.bind_eq_bind, Option.bind_some]
  exact hfold

end Masking

/-- What the thresholds of an impairment make of a buffer: its window holds
the exact sums, which the machine forms without a stop, and every cell
outside is what it was. -/
structure Grid.HoldsThresholds {c : Dims} (before after : Grid Int16 c)
    (impairment : Detail d) (hfit : d ≤ c) : Prop where
  exact_eq : ∀ (h : d.Nonempty) i j,
    (after.window d hfit i j).toInt = Masking.exactSum impairment h i j
  bounds : ∀ i j, 0 ≤ (after.window d hfit i j).toInt ∧
    (after.window d hfit i j).toInt ≤ 32763
  checked_eq : ∀ (h : d.Nonempty) i j,
    Masking.thresholdChecked impairment h i j
      = some (after.window d hfit i j)
  outside_eq : ∀ (i : Fin c.height) (j : Fin c.width),
    ¬(i.val < d.height ∧ j.val < d.width) → after.get i j = before.get i j

theorem Grid.writeThreshold_holds {c c₁ : Dims} (threshold : Grid Int16 c)
    {impairment : BandSet c₁} {x : Detail d} (hx : impairment.Shows x)
    (hfit : d ≤ c) :
    ∃ t, threshold.writeThreshold impairment = .ok t ∧
      threshold.HoldsThresholds t x hfit := by
  by_cases hd : d.Nonempty
  · refine ⟨_, threshold.writeThreshold_eq hx hd hfit, ?_⟩
    have hwindow := threshold.window_write d hfit (Masking.threshold x hd)
    exact {
      exact_eq := fun _ i j => by
        rw [hwindow]
        exact Masking.toInt_threshold_eq_exactSum x hd i j
      bounds := fun i j => by
        rw [hwindow]
        exact Masking.threshold_bounds x hd i j
      checked_eq := fun _ i j => by
        rw [hwindow]
        exact Masking.thresholdChecked_eq x hd i j
      outside_eq := fun i j hij => by rw [get_write, dif_neg hij] }
  · obtain rfl := hx.dims_eq
    exact ⟨threshold, threshold.writeThreshold_empty hd hfit, {
      exact_eq := fun h => absurd h hd
      bounds := fun i j => absurd ⟨j.pos, i.pos⟩ hd
      checked_eq := fun h => absurd h hd
      outside_eq := fun _ _ _ => rfl }⟩

-- ================================================================= the weights

/-- Detail that is weighted for a scale, exactly: the products fit the
register, and narrowing their floors loses nothing. -/
structure Detail.WeightedExactly (scale : Fin Dims.scaleCount)
    (x v : Detail d) : Prop where
  product_fits : ∀ o i j,
    o.visibility.weight scale * (x o i j).toInt ∈ Bounds.register
  toInt_eq : ∀ o i j, (v o i j).toInt
    = scaleDown (o.visibility.weight scale * (x o i j).toInt)
  abs_le : ∀ o i j, |(v o i j).toInt| ≤ 1497

theorem Detail.weighted_visibleAt (x : Detail d)
    (scale : Fin Dims.scaleCount) :
    x.WeightedExactly scale (x.visibleAt scale) where
  product_fits o i j := by
    obtain ⟨h0, hle⟩ := o.visibility.weight_bounds scale
    have hweight : |o.visibility.weight scale| ≤ 1497 := by
      rw [abs_of_nonneg h0]
      exact hle
    have hproduct : |o.visibility.weight scale * (x o i j).toInt|
        ≤ 1497 * 2 ^ 15 := by
      rw [abs_mul]
      exact mul_le_mul hweight (abs_sample_le _) (abs_nonneg _) (by decide)
    have hrange := abs_le.1 hproduct
    exact ⟨le_trans (by decide) hrange.1, le_trans hrange.2 (by decide)⟩
  toInt_eq o i j := by
    obtain ⟨h0, hle⟩ := o.visibility.weight_bounds scale
    exact toInt_visible h0 hle _
  abs_le o i j := by
    have := x.natAbs_visibleAt_le scale o i j
    rw [Int.abs_eq_natAbs]
    exact_mod_cast this

/-- What a threshold leaves of weighted detail. -/
theorem Detail.maskedBy_exact {x v : Detail d} {scale : Fin Dims.scaleCount}
    (hv : x.WeightedExactly scale v) {t : Raster Int16 d}
    (h0 : ∀ i j, 0 ≤ (t i j).toInt) (o : Orientation) (i : Fin d.height)
    (j : Fin d.width) :
    (v.maskedBy t o i j).toInt = max 0 (|(v o i j).toInt| - (t i j).toInt) ∧
      0 ≤ (v.maskedBy t o i j).toInt ∧ (v.maskedBy t o i j).toInt ≤ 1497 := by
  have habs := hv.abs_le o i j
  have ht := h0 i j
  have hmask : (v.maskedBy t o i j).toInt
      = max 0 (|(v o i j).toInt| - (t i j).toInt) := by
    rw [Int.abs_eq_natAbs] at habs ⊢
    exact Masking.toInt_mask (by exact_mod_cast habs) ht
  omega

-- ================================================================== one scale

/-- MASKING ARITHMETIC: whatever an impairment is and whatever a buffer held,
its thresholds are written and are exact. And whatever two pictures of one
size are, at every scale the stages go through: what is weighted is the
floor of the exact product and 1497 at the most, the thresholds are exact,
and what masking leaves is by how much a magnitude exceeds its threshold. -/
theorem masking_exact {c c₁ c₂ : Dims} (hfit : d ≤ c) :
    (∀ (threshold : Grid Int16 c) (impairment : BandSet c₁) (z : Detail d),
      impairment.Shows z →
      ∃ t, threshold.writeThreshold impairment = .ok t ∧
        threshold.HoldsThresholds t z hfit) ∧
    ∀ (scale : Fin Dims.scaleCount) (a : Arena c) (reference : BandSet c₁)
      (distorted : BandSet c₂) (x y : Detail d),
      reference.Shows x → distorted.Shows y →
      ∃ restored impairment visibleReference visibleRestored visibleImpairment
        threshold masked,
        reference.decouple distorted a.restored a.impairment
          = .ok (restored, impairment) ∧
        reference.filterVisible scale a.visibleReference
          = .ok visibleReference ∧
        restored.filterVisible scale a.visibleRestored
          = .ok visibleRestored ∧
        impairment.filterVisible scale a.visibleImpairment
          = .ok visibleImpairment ∧
        a.threshold.writeThreshold visibleImpairment = .ok threshold ∧
        visibleRestored.maskBy threshold a.masked = .ok masked ∧
        ∃ r z u v w m : Detail d,
          (restored.Shows r ∧ impairment.Shows z) ∧
          (visibleReference.Shows u ∧ x.WeightedExactly scale u) ∧
          (visibleRestored.Shows v ∧ r.WeightedExactly scale v) ∧
          (visibleImpairment.Shows w ∧ z.WeightedExactly scale w) ∧
          a.threshold.HoldsThresholds threshold w hfit ∧
          masked.Shows m ∧
          ∀ o i j,
            (m o i j).toInt = max 0 (|(v o i j).toInt|
              - (threshold.window d hfit i j).toInt) ∧
            0 ≤ (m o i j).toInt ∧ (m o i j).toInt ≤ 1497 := by
  refine ⟨fun threshold _ _ hz => threshold.writeThreshold_holds hz hfit,
    fun scale a reference distorted x y hx hy => ?_⟩
  obtain ⟨restored, impairment, hsplit, hr, hz⟩ :=
    BandSet.decouple_shows a.restored a.impairment hx hy hfit hfit
  obtain ⟨visibleReference, hvx, hu⟩ :=
    BandSet.filterVisible_shows a.visibleReference hx hfit scale
  obtain ⟨visibleRestored, hvr, hv⟩ :=
    BandSet.filterVisible_shows a.visibleRestored hr hfit scale
  obtain ⟨visibleImpairment, hvz, hw⟩ :=
    BandSet.filterVisible_shows a.visibleImpairment hz hfit scale
  obtain ⟨threshold, hthreshold, hholds⟩ :=
    a.threshold.writeThreshold_holds hw hfit
  obtain ⟨masked, hmask, hm⟩ :=
    BandSet.maskBy_shows a.masked hv hfit rfl hfit
  have hweighted (p : Detail d) := p.weighted_visibleAt scale
  exact ⟨restored, impairment, visibleReference, visibleRestored,
    visibleImpairment, threshold, masked, hsplit, hvx, hvr, hvz, hthreshold,
    hmask, _, _, _, _, _, _, ⟨hr, hz⟩, ⟨hu, hweighted x⟩, ⟨hv, hweighted _⟩,
    ⟨hw, hweighted _⟩, hholds, hm,
    Detail.maskedBy_exact (hweighted _) fun i j => (hholds.bounds i j).1⟩

/-- One place, as far down as samples reach. -/
def Detail.lowest : Detail ⟨1, 1⟩ := fun _ _ _ => -32768

theorem masking_exact_lowest :
    ∃ (a : Arena ⟨1, 1⟩) (bands : BandSet ⟨1, 1⟩) (t : Grid Int16 ⟨1, 1⟩),
      bands.Shows Detail.lowest ∧
      (Grid.fill ⟨1, 1⟩ 99).writeThreshold bands = .ok t ∧
      (t.window ⟨1, 1⟩ (Dims.le_refl _) 0 0).toInt = 32763 ∧
      ∃ (restored impairment masked : BandSet ⟨1, 1⟩) (m : Detail ⟨1, 1⟩),
        bands.decouple bands a.restored a.impairment
          = .ok (restored, impairment) ∧
        masked.Shows m ∧ (m .diagonal 0 0).toInt ≤ 1497 := by
  obtain ⟨a, -⟩ : ∃ a, Arena.allocate ⟨1, 1⟩ = .ok a := ⟨_, rfl⟩
  obtain ⟨bands, -, hbands⟩ :=
    a.reference.writeDetails_shows (Dims.le_refl _) Detail.lowest
  obtain ⟨hthresholds, hscale⟩ :=
    @masking_exact ⟨1, 1⟩ ⟨1, 1⟩ ⟨1, 1⟩ ⟨1, 1⟩ (Dims.le_refl _)
  obtain ⟨t, ht, hholds⟩ := hthresholds (.fill _ 99) bands _ hbands
  obtain ⟨restored, impairment, _, _, _, _, masked, hsplit, -, -, -, -, -,
      _, _, _, _, _, m, -, -, -, -, -, hm, hleft⟩ :=
    hscale ⟨0, by decide⟩ a bands bands _ _ hbands hbands
  refine ⟨a, bands, t, hbands, ht, ?_, restored, impairment, masked, m,
    hsplit, hm, (hleft .diagonal 0 0).2.2⟩
  rw [hholds.exact_eq (by decide)]
  decide +kernel

end AdditiveDetail

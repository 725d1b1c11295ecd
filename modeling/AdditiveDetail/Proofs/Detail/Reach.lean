/-
How far the values of a scale reach behind the split.

# Weights

A weight of visibility is below one, and the greatest of them is 1497
parts in `2 ^ 15`. So weighting never leaves sixteen bits and is the floor
of the exact product (`toInt_visible`); it keeps the order of coefficients
and their signs, and what is left is at most 1497 in magnitude. A
coefficient of one is not visible at any scale.

# Thresholds

The nine weights of a neighbourhood sum to 10921 parts in `2 ^ 15`, a
third of one less a trace. Three neighbourhoods of whatever samples
therefore stay just within sixteen bits, and the threshold is their exact
sum (`toInt_threshold`). It is not below zero, so masking takes away from
a magnitude and never adds to one.
-/
import AdditiveDetail.Proofs.Detail.Identity

namespace AdditiveDetail

-- ================================================================ the weights

/-- What a weighted coefficient reaches at most. -/
def visibleLimit : Nat := 1497

/-- The weights of all scales. -/
theorem Visibility.weight_bounds (v : Visibility) (scale : Fin Dims.scaleCount) :
    0 ≤ v.weight scale ∧ v.weight scale ≤ visibleLimit := by
  cases v <;> revert scale <;> decide +kernel

/-- The first coefficient lies between zero and the second one. -/
def Attenuates (x y : Int16) : Prop :=
  0 ≤ x.toInt ∧ x.toInt ≤ y.toInt ∨ y.toInt ≤ x.toInt ∧ x.toInt ≤ 0

instance (x y : Int16) : Decidable (Attenuates x y) :=
  inferInstanceAs (Decidable (_ ∨ _))

section Weighting

variable {weight : Int} (h0 : 0 ≤ weight) (hle : weight ≤ visibleLimit)
include h0 hle

theorem scaleDown_weighted_bounds (x : Int16) :
    -visibleLimit ≤ scaleDown (weight * x.toInt) ∧
      scaleDown (weight * x.toInt) ≤ visibleLimit := by
  have hlo : -(visibleLimit : Int) * 2 ^ fractionBits ≤ weight * x.toInt := by
    calc -(visibleLimit : Int) * 2 ^ fractionBits ≤ weight * -2 ^ 15 := by
          show -(visibleLimit : Int) * 2 ^ 15 ≤ _
          omega
      _ ≤ weight * x.toInt := Int.mul_le_mul_of_nonneg_left x.le_toInt h0
  have hhi : weight * x.toInt ≤ visibleLimit * 2 ^ fractionBits := by
    calc weight * x.toInt ≤ weight * 2 ^ 15 :=
          Int.mul_le_mul_of_nonneg_left (Int.le_of_lt x.toInt_lt) h0
      _ ≤ visibleLimit * 2 ^ fractionBits := by
          show _ ≤ (visibleLimit : Int) * 2 ^ 15
          omega
  constructor
  · exact (Int.le_ediv_iff_mul_le (by decide)).2 hlo
  · have := Int.ediv_le_ediv (c := 2 ^ fractionBits) (by decide) hhi
    rwa [Int.mul_ediv_cancel _ (by decide)] at this

/-- Weighting is the floor of the exact product. -/
theorem toInt_visible (x : Int16) :
    (visible weight x).toInt = scaleDown (weight * x.toInt) := by
  obtain ⟨hlo, hhi⟩ := scaleDown_weighted_bounds h0 hle x
  refine toInt_narrow_of_mem ?_ ?_
  · exact Int.le_trans (by decide) hlo
  · exact Int.le_trans hhi (by decide)

theorem natAbs_visible_le (x : Int16) :
    (visible weight x).toInt.natAbs ≤ visibleLimit := by
  have := scaleDown_weighted_bounds h0 hle x
  rw [toInt_visible h0 hle]
  omega

/-- Weighting keeps the order. -/
theorem visible_mono {x y : Int16} (h : x.toInt ≤ y.toInt) :
    (visible weight x).toInt ≤ (visible weight y).toInt := by
  rw [toInt_visible h0 hle, toInt_visible h0 hle]
  exact Int.ediv_le_ediv (by decide) (Int.mul_le_mul_of_nonneg_left h h0)

/-- A coefficient of one is not visible. -/
theorem visible_one : visible weight 1 = 0 := by
  have h : scaleDown (weight * (1 : Int16).toInt) = 0 := by
    show weight * 1 / 2 ^ 15 = 0
    unfold visibleLimit at hle
    omega
  unfold visible
  rw [h]
  rfl

/-- What is left of an attenuated coefficient is not more visible than the
coefficient. -/
theorem natAbs_visible_le_of_attenuates {x y : Int16} (h : Attenuates x y) :
    (visible weight x).toInt.natAbs ≤ (visible weight y).toInt.natAbs := by
  have hmono {x y : Int16} (h : x.toInt ≤ y.toInt) := visible_mono h0 hle h
  have hzero : (visible weight 0).toInt = 0 := by
    rw [visible_zero]
    rfl
  rcases h with ⟨hx, hxy⟩ | ⟨hyx, hx⟩
  · have := hmono (x := 0) hx
    have := hmono hxy
    omega
  · have := hmono (y := 0) hx
    have := hmono hyx
    omega

end Weighting

namespace Detail

variable {d : Dims}

theorem natAbs_visibleAt_le (x : Detail d) (scale : Fin Dims.scaleCount)
    (o : Orientation) (i : Fin d.height) (j : Fin d.width) :
    (x.visibleAt scale o i j).toInt.natAbs ≤ visibleLimit := by
  obtain ⟨h0, hle⟩ := o.visibility.weight_bounds scale
  exact natAbs_visible_le h0 hle _

end Detail

-- ============================================================= the thresholds

namespace Masking

theorem neighbourWeight_eq : neighbourWeight = 1092 := by decide +kernel

theorem centreWeight_eq : centreWeight = 2185 := by decide +kernel

variable {d : Dims}

/-- A weighted sum over a neighbourhood, from bounds of its terms. -/
theorem weighted_bounds (near : Fin d.height → Fin d.width → Int)
    (hnear : ∀ i j, 0 ≤ near i j ∧ near i j ≤ 2 ^ 15) (s : Surroundings d) :
    let sum := neighbourWeight *
        (near s.above s.left + near s.above s.column + near s.above s.right
          + near s.row s.left + near s.row s.right
          + near s.below s.left + near s.below s.column + near s.below s.right)
      + centreWeight * near s.row s.column
    0 ≤ scaleDown sum ∧ scaleDown sum ≤ 10921 := by
  have := hnear s.above s.left
  have := hnear s.above s.column
  have := hnear s.above s.right
  have := hnear s.row s.left
  have := hnear s.row s.column
  have := hnear s.row s.right
  have := hnear s.below s.left
  have := hnear s.below s.column
  have := hnear s.below s.right
  rw [neighbourWeight_eq, centreWeight_eq]
  unfold scaleDown fractionBits
  omega

/-- What a neighbourhood adds to a threshold at most. -/
theorem neighbourhood_bounds (band : Raster Int16 d) (s : Surroundings d) :
    0 ≤ scaleDown (neighbourhood band s) ∧
      scaleDown (neighbourhood band s) ≤ 10921 := by
  refine weighted_bounds (fun i j => (band i j).toInt.natAbs)
    (fun i j => ?_) s
  have := (band i j).le_toInt
  have := (band i j).toInt_lt
  omega

/-- A sample and an integer whose sum is a sample are added exactly. -/
theorem toInt_add_narrow {total : Int16} {x : Int} (h0 : 0 ≤ total.toInt)
    (hx : 0 ≤ x) (h : total.toInt + x ≤ 32767) :
    (total + narrow x).toInt = total.toInt + x := by
  rw [Int16.toInt_add, toInt_narrow_of_mem (by omega) (by omega),
    Int.bmod_eq_emod]
  split <;> omega

/-- Integers that are not below zero are added exactly as soon as their sum
is a sample: no sum on the way is greater. -/
theorem toInt_foldl_add (xs : List Int) (total : Int16)
    (h0 : 0 ≤ total.toInt) (hxs : ∀ x ∈ xs, 0 ≤ x)
    (h : total.toInt + xs.sum ≤ 32767) :
    (xs.foldl (fun sum x => sum + narrow x) total).toInt
      = total.toInt + xs.sum := by
  induction xs generalizing total with
  | nil => exact (add_zero _).symm
  | cons x xs ih =>
      rw [List.forall_mem_cons] at hxs
      have hrest := List.sum_nonneg hxs.2
      rw [List.sum_cons] at h
      have hstep := toInt_add_narrow h0 hxs.1 (by omega)
      rw [List.foldl_cons, ih _ (by omega) hxs.2 (by omega), hstep,
        List.sum_cons, add_assoc]

theorem neighbourhoods_nonneg (impairment : Orientation → Raster Int16 d)
    (s : Surroundings d) : ∀ x ∈ Orientation.all.map fun o =>
      scaleDown (neighbourhood (impairment o) s), 0 ≤ x := by
  intro x hx
  obtain ⟨o, -, rfl⟩ := List.mem_map.1 hx
  exact (neighbourhood_bounds (impairment o) s).1

/-- What the three orientations add to a threshold together. -/
theorem sum_neighbourhoods_bounds (impairment : Orientation → Raster Int16 d)
    (s : Surroundings d) :
    let sum := (Orientation.all.map fun o =>
      scaleDown (neighbourhood (impairment o) s)).sum
    0 ≤ sum ∧ sum ≤ 32763 := by
  have hbounds (o : Orientation) := neighbourhood_bounds (impairment o) s
  have hh := hbounds .horizontal
  have hv := hbounds .vertical
  have hd := hbounds .diagonal
  simp only [Orientation.all, List.map_cons, List.map_nil, List.sum_cons,
    List.sum_nil]
  omega

/-- The threshold is the exact sum of what the orientations add. -/
theorem toInt_threshold (impairment : Orientation → Raster Int16 d)
    (h : d.Nonempty) (i : Fin d.height) (j : Fin d.width) :
    (threshold impairment h i j).toInt
      = (Orientation.all.map fun o =>
          scaleDown (neighbourhood (impairment o) (around h i j))).sum := by
  obtain ⟨-, hle⟩ := sum_neighbourhoods_bounds impairment (around h i j)
  have hfold := toInt_foldl_add (Orientation.all.map fun o =>
      scaleDown (neighbourhood (impairment o) (around h i j))) 0 le_rfl
    (neighbourhoods_nonneg impairment _) (by rw [Int16.toInt_zero]; omega)
  rwa [List.foldl_map, Int16.toInt_zero, zero_add] at hfold

theorem threshold_bounds (impairment : Orientation → Raster Int16 d)
    (h : d.Nonempty) (i : Fin d.height) (j : Fin d.width) :
    0 ≤ (threshold impairment h i j).toInt ∧
      (threshold impairment h i j).toInt ≤ 32763 := by
  rw [toInt_threshold]
  exact sum_neighbourhoods_bounds impairment (around h i j)

theorem threshold_nonneg (impairment : Orientation → Raster Int16 d)
    (h : d.Nonempty) (i : Fin d.height) (j : Fin d.width) :
    0 ≤ (threshold impairment h i j).toInt :=
  (threshold_bounds impairment h i j).1

/-- What a threshold leaves of a weighted coefficient. -/
theorem toInt_mask {x threshold : Int16} (hx : x.toInt.natAbs ≤ visibleLimit)
    (h0 : 0 ≤ threshold.toInt) :
    (mask x threshold).toInt = max 0 (x.toInt.natAbs - threshold.toInt) := by
  unfold visibleLimit at hx
  exact toInt_narrow_of_mem (by omega) (by omega)

end Masking

end AdditiveDetail

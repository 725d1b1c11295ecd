/-
One level of the transform against the level in exact arithmetic.

# Two remainders

A pass drops the fraction of its sum. What the row pass drops is lost once
and takes less than one unit off a cell. What the column pass drops of the
four samples under a cell goes through the taps of the row pass first, so
it counts with their signs: `2 ^ 30` times a cell and the exact sum over
its sixteen taps differ by these two remainders and by nothing else
(`Raster.subBand_sub_convolved`). The narrowing drops nothing, since a
picture of ten bits leaves headroom in all six passes of a level.

# The margins

The row pass is low-pass for the approximation and the horizontal detail,
high-pass for the vertical and the diagonal one, and that alone decides how
far a remainder reaches. Reflected columns repeat a sample, and with it its
remainder, so the margins hold at the edges too.
-/
import Mathlib.Order.Interval.Set.Basic
import Mathlib.Tactic.Linarith
import Mathlib.Tactic.Ring
import AdditiveDetail.Proofs.Scoring.Headroom
import AdditiveDetail.Proofs.Wavelet.ClosedForm

namespace AdditiveDetail

-- ================================================================== remainders

/-- The fraction of a sum that scaling down drops. -/
def dropped (sum : Int) : Int := sum % 32768

/-- What a dropped fraction lies between. -/
def Bounds.fraction : Bounds := ⟨0, 32767⟩

theorem dropped_nonneg (sum : Int) : 0 ≤ dropped sum :=
  Int.emod_nonneg sum (by decide)

theorem dropped_lt (sum : Int) : dropped sum < 32768 :=
  Int.emod_lt_of_pos sum (by decide)

theorem dropped_mem (sum : Int) : dropped sum ∈ Bounds.fraction :=
  ⟨dropped_nonneg sum, Int.le_of_lt_add_one (dropped_lt sum)⟩

theorem scaleDown_add_dropped (sum : Int) :
    32768 * scaleDown sum + dropped sum = sum :=
  Int.mul_ediv_add_emod sum 32768

namespace Taps

variable {α : Type}

/-- A response is linear. -/
theorem response_add (t : Taps) (g h : α → Int) (q : Quad α) :
    t.response (q.map fun a => g a + h a)
      = t.response (q.map g) + t.response (q.map h) := by
  simp only [response, Quad.map]
  ring

theorem response_mul (t : Taps) (c : Int) (g : α → Int) (q : Quad α) :
    t.response (q.map fun a => c * g a) = c * t.response (q.map g) := by
  simp only [response, Quad.map]
  ring

/-- The response to samples that are sums scaled down, and to what was
dropped of them. -/
theorem response_scaled (t : Taps) (g : α → Int) (q : Quad α) :
    32768 * t.response (q.map fun a => scaleDown (g a))
      + t.response (q.map fun a => dropped (g a)) = t.response (q.map g) := by
  rw [← response_mul, ← response_add]
  simp only [scaleDown_add_dropped]

end Taps

-- ================================================================ exact cells

namespace Raster

variable {d : Dims}

/-- A cell of a band in exact arithmetic: the sum over sixteen taps, each a
product of a weight along the rows and a weight down the columns, put on the
sample that stands at its reflected place, with all fraction bits kept. -/
def convolved (x : Raster Int d) (h : d.Nonempty) (f : FilterBank)
    (band : Band) (i j : Nat) : ℚ :=
  (∑ k : Fin 4, ∑ l : Fin 4,
    (f.channel band.rows).weight k * (f.channel band.columns).weight l
      * x (reflectIn (2 * i - 1 + l) h.height_pos)
        (reflectIn (2 * j - 1 + k) h.width_pos) : Int) / 2 ^ 30

/-- The sum of the column pass for output row `i`. -/
def columnSum (x : Raster Int d) (h : d.Nonempty) (t : Taps) (i : Nat)
    (j : Fin d.width) : Int :=
  t.response ((reach i h.height_pos).map fun r => x r j)

/-- The sixteen taps, as one response to the sums of another. -/
theorem convolved_eq (x : Raster Int d) (h : d.Nonempty) (f : FilterBank)
    (band : Band) (i j : Nat) : x.convolved h f band i j
      = ((f.channel band.rows).response ((reach j h.width_pos).map
          (x.columnSum h (f.channel band.columns) i)) : Int) / 2 ^ 30 := by
  unfold convolved columnSum
  simp only [Taps.response_reach, Finset.mul_sum, mul_assoc]

variable {b : Bounds} {f : FilterBank} {x : Raster Int d}

/-- A scratch row holds the scaled sums themselves. -/
theorem toInt_columnFiltered (hb : b.LevelHeadroom f fun _ => true)
    (h : d.Nonempty) (hx : ∀ i j, x i j ∈ b) (c : Channel) (i : Nat)
    (j : Fin d.width) :
    (x.columnFiltered h (f.channel c) i j).toInt
      = scaleDown (x.columnSum h (f.channel c) i j) :=
  (hb.columns c).toInt_pass (fun r => hx r j) _

/-- A band holds the scaled sums themselves. -/
theorem toInt_subBand (hb : b.LevelHeadroom f fun _ => true)
    (h : d.Nonempty) (hx : ∀ i j, x i j ∈ b) (band : Band)
    (i : Fin d.half.height) (j : Fin d.half.width) :
    (x.subBand h f band i j).toInt
      = scaleDown ((f.channel band.rows).response
          ((reach j h.width_pos).map fun k =>
            scaleDown (x.columnSum h (f.channel band.columns) i k))) := by
  have hcell := (hb.rows band).toInt_pass
    (fun k => hb.columnFiltered_mem h hx band.columns i k) (reach j h.width_pos)
  simp only [toInt_columnFiltered hb h hx] at hcell
  rw [← hcell]
  unfold subBand
  simp only [toInt_columnFiltered hb h hx]

/-- How far a cell stands from the exact one: by the remainder of the row
pass and by what its taps make of the remainders of the column pass. -/
theorem subBand_sub_convolved (hb : b.LevelHeadroom f fun _ => true)
    (h : d.Nonempty) (hx : ∀ i j, x i j ∈ b) (band : Band)
    (i : Fin d.half.height) (j : Fin d.half.width) :
    ∃ row ∈ Bounds.fraction, ∃ columns ∈ Bounds.fraction.summed ⟨0, 0⟩
        (f.channel band.rows).toList,
      ((x.subBand h f band i j).toInt : ℚ) - x.convolved h f band i j
        = -(32768 * row + columns) / 2 ^ 30 := by
  have hscaled := (f.channel band.rows).response_scaled
    (x.columnSum h (f.channel band.columns) i) (reach j h.width_pos)
  have hcolumns := Bounds.response_mem (f.channel band.rows)
    (fun k => dropped_mem (x.columnSum h (f.channel band.columns) i k))
    (reach j h.width_pos)
  rw [toInt_subBand hb h hx, convolved_eq]
  generalize (f.channel band.rows).response ((reach j h.width_pos).map
    fun k => scaleDown (x.columnSum h (f.channel band.columns) i k)) = sum
    at hscaled ⊢
  generalize (f.channel band.rows).response ((reach j h.width_pos).map
    fun k => dropped (x.columnSum h (f.channel band.columns) i k)) = columns
    at hscaled hcolumns
  refine ⟨dropped sum, dropped_mem sum, columns, hcolumns, ?_⟩
  have hsum : (32768 * scaleDown sum + dropped sum : ℚ) = sum := by
    exact_mod_cast scaleDown_add_dropped sum
  have hexact : (32768 * sum + columns : ℚ)
      = ((f.channel band.rows).response ((reach j h.width_pos).map
        (x.columnSum h (f.channel band.columns) i)) : Int) := by
    exact_mod_cast hscaled
  rw [← hexact, ← hsum]
  ring

end Raster

-- ======================================================== the filters in use

namespace Bounds

/-- The first level has headroom in all four bands. -/
theorem pixel_levelHeadroom :
    pixel.LevelHeadroom FilterBank.daubechies fun _ => true := by
  rw [FilterBank.daubechies_eq]
  decide

/-- How far the remainders of the column pass reach through either filter
of the row pass. -/
theorem fraction_summed :
    fraction.summed ⟨0, 0⟩ FilterBank.daubechies.low.toList
        = ⟨-138932080, 1657420394⟩ ∧
      fraction.summed ⟨0, 0⟩ FilterBank.daubechies.high.toList
        = ⟨-898176237, 898176237⟩ := by
  rw [FilterBank.daubechies_eq]
  decide

end Bounds

/-- Two remainders within their bounds, as an error of a cell. -/
theorem remainders_mem {row columns : Int} {b : Bounds}
    (hrow : row ∈ Bounds.fraction) (hcolumns : columns ∈ b) :
    -(32768 * row + columns : ℚ) / 2 ^ 30
      ∈ Set.Icc (-(32768 * 32767 + b.hi : ℚ) / 2 ^ 30)
        (-(b.lo : ℚ) / 2 ^ 30) := by
  have hrow0 : (0 : ℚ) ≤ row := by exact_mod_cast hrow.1
  have hrow1 : (row : ℚ) ≤ 32767 := by exact_mod_cast hrow.2
  have hcolumns0 : (b.lo : ℚ) ≤ columns := by exact_mod_cast hcolumns.1
  have hcolumns1 : (columns : ℚ) ≤ b.hi := by exact_mod_cast hcolumns.2
  constructor <;> linarith

/-- How far a cell of a band may stand from the exact one. -/
def Band.margin : Band → Set ℚ
  | .approximation | .detail .horizontal => Set.Ioo (-255 / 100) (13 / 100)
  | .detail .vertical | .detail .diagonal => Set.Ioo (-184 / 100) (84 / 100)

namespace Raster

variable {d : Dims} {x : Raster Int d}

/-- Over samples of ten bits every cell keeps the margin of its band. -/
theorem subBand_mem_margin (h : d.Nonempty)
    (hx : ∀ i j, x i j ∈ Bounds.pixel) (band : Band)
    (i : Fin d.half.height) (j : Fin d.half.width) :
    ((x.subBand h .daubechies band i j).toInt : ℚ)
      - x.convolved h .daubechies band i j ∈ band.margin := by
  obtain ⟨hlow, hhigh⟩ := Bounds.fraction_summed
  obtain ⟨row, hrow, columns, hcolumns, herror⟩ :=
    subBand_sub_convolved Bounds.pixel_levelHeadroom h hx band i j
  rw [herror]
  match band with
  | .approximation | .detail .horizontal =>
      refine Set.Icc_subset_Ioo ?_ ?_
        (remainders_mem hrow (hlow ▸ hcolumns)) <;> norm_num
  | .detail .vertical | .detail .diagonal =>
      refine Set.Icc_subset_Ioo ?_ ?_
        (remainders_mem hrow (hhigh ▸ hcolumns)) <;> norm_num

end Raster

-- =============================================================== the transform

/-- The window has half the size of the source, and every cell in it keeps
the margin of its band beside the exact one. -/
structure BandSet.Accurate {capacity : Dims} (b : BandSet capacity)
    (src : Image) (h : src.dims.Nonempty) : Prop where
  dims_eq : b.dims = ⟨(src.dims.width + 1) / 2, (src.dims.height + 1) / 2⟩
  error_mem : ∀ (band : Band) (i : Fin b.dims.height) (j : Fin b.dims.width),
    ((b.view band i j).toInt : ℚ)
      - src.sample.convolved h FilterBank.daubechies band i j ∈ band.margin

namespace Transform

variable {maxWidth : Nat} {capacity : Dims}

/-- ACCURACY OF A LEVEL: over every picture of ten bits that fits, the
transform ends, its registers hold every sum and sixteen bits every
result, and every cell of every band keeps its margin beside the exact
one. -/
theorem forward_accurate (t : Transform maxWidth) (src : Image)
    (dst : BandSet capacity) (hfilters : t.filters = FilterBank.daubechies)
    (h : src.dims.Nonempty) (hw : src.dims.width ≤ maxWidth)
    (hfit : src.dims.half ≤ capacity)
    (hdepth : ∀ i j, 0 ≤ src.sample i j ∧ src.sample i j ≤ 1023) :
    ∃ (t' : Transform maxWidth) (out : BandSet capacity),
      t.forward src dst = .ok (t', out) ∧
      t.forwardChecked (fun _ => true) src dst = some (t', out) ∧
      out.Accurate src h := by
  obtain ⟨t', -, hforward⟩ := t.forward_eq src dst h hw hfit
  have hchecked := t.forwardChecked_eq src dst
    (hfilters ▸ Bounds.pixel_levelHeadroom) hdepth
  rw [hforward] at hchecked
  refine ⟨t', _, hforward, hchecked, Dims.half_eq h, fun band i j => ?_⟩
  rw [hfilters, BandSet.view_writeBands]
  exact Raster.subBand_mem_margin h hdepth band i j

/-- Pixels of greatest contrast, with odd axes. -/
def checkered : Image where
  dims := ⟨3, 5⟩
  sample i j := if (i.val + j.val) % 2 = 0 then 1023 else 0

theorem forward_accurate_checkered : ∃ (t t' : Transform 3)
    (out : BandSet ⟨2, 3⟩),
    t.forward checkered (.zeros ⟨2, 3⟩) = .ok (t', out) ∧
      ∃ h, out.Accurate checkered h := by
  obtain ⟨t, hfilters⟩ : ∃ t : Transform 3,
      t.filters = FilterBank.daubechies :=
    ⟨⟨_, Vector.replicate 3 0, Vector.replicate 3 0⟩, rfl⟩
  have hnonempty : checkered.dims.Nonempty := ⟨by decide, by decide⟩
  have hdepth (i : Fin 5) (j : Fin 3) :
      0 ≤ checkered.sample i j ∧ checkered.sample i j ≤ 1023 := by
    show 0 ≤ (if (i.val + j.val) % 2 = 0 then 1023 else 0 : Int) ∧
      (if (i.val + j.val) % 2 = 0 then 1023 else 0 : Int) ≤ 1023
    split <;> decide
  obtain ⟨t', out, hforward, -, haccurate⟩ := t.forward_accurate checkered
    (.zeros ⟨2, 3⟩) hfilters hnonempty (by decide) (by decide) hdepth
  exact ⟨t, t', out, hforward, hnonempty, haccurate⟩

end Transform

end AdditiveDetail

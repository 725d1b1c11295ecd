/-
One level of the transform, told completely: for which sources it ends, and
what it leaves in every cell.

The closed form of a cell is written with a sum over the taps
(`Taps.along`), apart from the loops and from the order in which they form
it: a tap weighs the sample that stands at its reflected index. That the
loops end, on a machine that checks their indices and sums, is `Strict`.
-/
import Mathlib.Algebra.BigOperators.Fin
import AdditiveDetail.Proofs.Wavelet.Strict

namespace AdditiveDetail

-- =========================================================== the closed form

namespace Taps

/-- The weight of a tap. -/
def weight (t : Taps) : Fin 4 → Int
  | 0 => t.t0
  | 1 => t.t1
  | 2 => t.t2
  | 3 => t.t3

/-- A continued row of samples, filtered at output `i`: the sum over the taps,
scaled down and narrowed. -/
def along (t : Taps) {n : Nat} (h : 0 < n) (x : Fin n → Int) (i : Nat) : Int16 :=
  narrow (scaleDown (∑ k : Fin 4, t.weight k * x (reflectIn (2 * i - 1 + k) h)))

/-- The response to the samples that an output reaches is a sum over the
taps. -/
theorem response_reach (t : Taps) {n : Nat} (h : 0 < n) (x : Fin n → Int)
    (i : Nat) : t.response ((reach i h).map x)
      = ∑ k : Fin 4, t.weight k * x (reflectIn (2 * i - 1 + k) h) := by
  have h1 : (2 * i - 1 + 1 : Int) = 2 * i := by omega
  have h2 : (2 * i - 1 + 2 : Int) = 2 * i + 1 := by omega
  have h3 : (2 * i - 1 + 3 : Int) = 2 * i + 2 := by omega
  rw [Fin.sum_univ_four]
  simp [response, weight, reach, Quad.map, h1, h2, h3]

/-- The pass over the samples that an output reaches is the closed form. -/
theorem pass_reach (t : Taps) {n : Nat} (h : 0 < n) (x : Fin n → Int)
    (i : Nat) : Transform.pass t ((reach i h).map x) = t.along h x i := by
  unfold along Transform.pass
  rw [response_reach]

end Taps

namespace Raster

variable {d : Dims}

/-- Each column of a picture, filtered at output row `i`. -/
theorem columnFiltered_eq_along (x : Raster Int d) (h : d.Nonempty) (t : Taps)
    (i : Nat) (j : Fin d.width) :
    x.columnFiltered h t i j = t.along h.height_pos (fun r => x r j) i :=
  t.pass_reach h.height_pos _ i

/-- A band is filtered along the rows of what is filtered down the columns. -/
theorem subBand_eq_along (x : Raster Int d) (h : d.Nonempty) (f : FilterBank)
    (band : Band) (i : Fin d.half.height) (j : Fin d.half.width) :
    x.subBand h f band i j = (f.channel band.rows).along h.width_pos
      (fun c => ((f.channel band.columns).along h.height_pos
        (fun r => x r c) i).toInt) j := by
  have hcolumns (c : Fin d.width) :=
    x.columnFiltered_eq_along h (f.channel band.columns) i c
  simp only [← hcolumns]
  exact (f.channel band.rows).pass_reach h.width_pos _ j

end Raster

-- ========================================================== all that it does

/-- Axes that are not empty are halved and rounded up. -/
theorem Dims.half_eq {d : Dims} (h : d.Nonempty) :
    d.half = ⟨(d.width + 1) / 2, (d.height + 1) / 2⟩ := by
  have hw := h.width_pos
  have hh := h.height_pos
  unfold half
  congr 1 <;> omega

theorem Image.height_pos {src : Image} (h : src.dims.Nonempty) :
    0 < src.dims.height := h.height_pos

/-- A column of a source, filtered at output row `i`, as a row pass reads it. -/
def Image.filteredDown (src : Image) (h : src.dims.Nonempty) (t : Taps)
    (i : Nat) (c : Fin src.dims.width) : Int :=
  (t.along (Image.height_pos h) (fun r => src.sample r c) i).toInt

/-- What a level leaves of a source, and of what the buffers held before: the
window has half the size of the source, rounded up, every cell inside it is
the closed form of its band, and every cell outside is what it was. -/
structure BandSet.Decomposes {capacity : Dims} (before after : BandSet capacity)
    (src : Image) (h : src.dims.Nonempty) (f : FilterBank) : Prop where
  dims_eq : after.dims
    = ⟨(src.dims.width + 1) / 2, (src.dims.height + 1) / 2⟩
  approximation_eq : ∀ (i : Fin after.dims.height) (j : Fin after.dims.width),
    after.view .approximation i j
      = f.low.along h.width_pos (src.filteredDown h f.low i) j
  vertical_eq : ∀ (i : Fin after.dims.height) (j : Fin after.dims.width),
    after.detail .vertical i j
      = f.high.along h.width_pos (src.filteredDown h f.low i) j
  horizontal_eq : ∀ (i : Fin after.dims.height) (j : Fin after.dims.width),
    after.detail .horizontal i j
      = f.low.along h.width_pos (src.filteredDown h f.high i) j
  diagonal_eq : ∀ (i : Fin after.dims.height) (j : Fin after.dims.width),
    after.detail .diagonal i j
      = f.high.along h.width_pos (src.filteredDown h f.high i) j
  outside_eq : ∀ (band : Band) (i : Fin capacity.height)
    (j : Fin capacity.width),
    ¬(i.val < after.dims.height ∧ j.val < after.dims.width) →
    (after.buffer band).get i j = (before.buffer band).get i j

/-- The bands of a picture, put into the window. -/
theorem BandSet.decomposes_writeBands {capacity : Dims}
    (b : BandSet capacity) {src : Image} (h : src.dims.Nonempty)
    (hfit : src.dims.half ≤ capacity) (f : FilterBank) :
    b.Decomposes (b.writeBands src.dims.half hfit (src.sample.subBand h f))
      src h f := by
  have hview (band : Band) (i : Fin src.dims.half.height)
      (j : Fin src.dims.half.width) :
      (b.writeBands src.dims.half hfit (src.sample.subBand h f)).view band i j
        = (f.channel band.rows).along h.width_pos
          (src.filteredDown h (f.channel band.columns) i) j := by
    have hshown := b.view_writeBands src.dims.half hfit
      (src.sample.subBand h f) band
    exact (congrFun (congrFun hshown i) j).trans
      (src.sample.subBand_eq_along h f band i j)
  exact {
    dims_eq := Dims.half_eq h
    approximation_eq := hview .approximation
    vertical_eq := hview (.detail .vertical)
    horizontal_eq := hview (.detail .horizontal)
    diagonal_eq := hview (.detail .diagonal)
    outside_eq := fun band i j hij => by
      rw [BandSet.buffer_writeBands, Grid.get_write]
      exact dif_neg hij }

namespace Transform

variable {maxWidth : Nat} {capacity : Dims}

/-- A LEVEL OF THE TRANSFORM, for filters of any weights, a source of any size
whose sums fit a register, and scratch rows and buffers with any contents.
The strict machine ends exactly when the source has samples, is no wider than
the scratch rows and has a half that fits; it does what the transform does;
and what it leaves is the closed form inside the window and what was there
outside. -/
theorem forward_closedForm (t : Transform maxWidth) (src : Image)
    (dst : BandSet capacity) (hsums : src.SumsFit t.filters) :
    ((t.forwardStrict src dst).isSome
      ↔ (1 ≤ src.dims.width ∧ src.dims.width ≤ maxWidth) ∧
        1 ≤ src.dims.height ∧
        (src.dims.width + 1) / 2 ≤ capacity.width ∧
        (src.dims.height + 1) / 2 ≤ capacity.height) ∧
    t.forwardStrict src dst = (t.forward src dst).toOption ∧
    ∀ (t' : Transform maxWidth) (out : BandSet capacity),
      t.forward src dst = .ok (t', out) →
      t'.filters = t.filters ∧
        ∃ h : src.dims.Nonempty, dst.Decomposes out src h t.filters := by
  have hrun := t.forwardStrict_eq_toOption src dst hsums
  refine ⟨?_, hrun, fun t' out hout => ?_⟩
  · rw [hrun, isSome_toOption_forward]
    constructor
    · rintro ⟨h, hw, hfit⟩
      rw [Dims.half_eq h] at hfit
      exact ⟨⟨h.width_pos, hw⟩, h.height_pos, hfit⟩
    · rintro ⟨⟨hwidth, hw⟩, hheight, hfit⟩
      have h : src.dims.Nonempty := ⟨hwidth, hheight⟩
      exact ⟨h, hw, Dims.half_eq h ▸ hfit⟩
  · obtain ⟨h, hw, hfit⟩ :=
      (t.isSome_toOption_forward src dst).1 (by rw [hout]; rfl)
    obtain ⟨t₁, hfilters, hforward⟩ := t.forward_eq src dst h hw hfit
    obtain ⟨rfl, rfl⟩ := Prod.mk.inj (Except.ok.inj (hout.symm.trans hforward))
    exact ⟨hfilters, h, dst.decomposes_writeBands h hfit t.filters⟩

/-- A row of three samples, the first two at the ends of what sixteen bits
hold. -/
def extremeRow : Image where
  dims := ⟨3, 1⟩
  sample _ j := if j.val = 0 then -32768 else if j.val = 1 then 32767 else 5

theorem forward_closedForm_extremeRow : ∃ (stale t' : Transform 5)
    (dst out : BandSet ⟨4, 2⟩),
    stale.low = Vector.replicate 5 (-7) ∧
    dst.details.diagonal = Grid.fill ⟨4, 2⟩ 9 ∧
    stale.forwardStrict extremeRow dst = some (t', out) ∧
    out.dims = ⟨2, 1⟩ ∧
    ∀ (i : Fin 2) (j : Fin 4), ¬(i.val < 1 ∧ j.val < 2) →
      out.details.diagonal.get i j = 9 := by
  obtain ⟨stale, hfilters, hlow⟩ : ∃ t : Transform 5,
      t.filters = FilterBank.daubechies ∧ t.low = Vector.replicate 5 (-7) :=
    ⟨⟨_, _, Vector.replicate 5 3⟩, rfl, rfl⟩
  obtain ⟨dst, hdst⟩ : ∃ b : BandSet ⟨4, 2⟩,
      b.details.diagonal = Grid.fill ⟨4, 2⟩ 9 :=
    ⟨(BandSet.zeros _).modify (.detail .diagonal) fun _ => Grid.fill _ 9, rfl⟩
  have hsums : extremeRow.SumsFit stale.filters := by
    rw [hfilters]
    apply Image.sumsFit_daubechies
    intro i j
    show (if j.val = 0 then -32768 else if j.val = 1 then 32767 else 5)
      ∈ Bounds.sample
    revert j
    decide
  obtain ⟨hends, hrun, hleft⟩ := stale.forward_closedForm extremeRow dst hsums
  obtain ⟨⟨t', out⟩, hout⟩ := Option.isSome_iff_exists.1 (hends.2 (by decide))
  have hforward : stale.forward extremeRow dst = .ok (t', out) := by
    rw [hrun] at hout
    cases hstep : stale.forward extremeRow dst <;> rw [hstep] at hout
    · cases hout
    · exact congrArg Except.ok (Option.some.inj hout)
  obtain ⟨-, _, hdecomposes⟩ := hleft t' out hforward
  refine ⟨stale, t', dst, out, hlow, hdst, hout, hdecomposes.dims_eq,
    fun i j hij => ?_⟩
  have houtside := hdecomposes.outside_eq (.detail .diagonal) i j
  rw [hdecomposes.dims_eq] at houtside
  refine (houtside hij).trans ?_
  show dst.details.diagonal.get i j = 9
  rw [hdst, Grid.get_fill]

end Transform

end AdditiveDetail

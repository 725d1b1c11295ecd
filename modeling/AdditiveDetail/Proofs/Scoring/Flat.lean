/-
A picture scored against a flat one.

# Two runs in one

A flat picture has no detail, and its approximation is flat, so it stays
without detail at all scales (`Lost.next`). Against it a picture loses all
of its detail; the other way around all detail of the picture was not
there. The two runs are not followed one after the other: the pair of the
second is the pair of the first with its pictures exchanged (`swap`), at
every scale (`swap_atScale`), and a scale of the exchanged pair contributes
the same two numbers, exchanged (`Lost.swap_scaleScore`).

# What is left

The numerator of lost detail has nothing but the terms of the areas. It
does not depend on the flat picture, and the denominator does not either,
so the score is that of any other flat picture. It is at most one, and
less as soon as something of the picture is visible where it counts.
-/
import AdditiveDetail.Proofs.Detail.Comparison
import AdditiveDetail.Proofs.Detail.Lost
import AdditiveDetail.Proofs.Scoring.Headroom
import AdditiveDetail.Proofs.Scoring.Identity
import AdditiveDetail.Proofs.Wavelet.Flat

namespace AdditiveDetail

open Binary

-- ============================================================= exchanged pairs

/-- The contributions to numerator and denominator, exchanged. -/
def ScaleScore.swap (s : ScaleScore) : ScaleScore := ⟨s.den, s.num⟩

namespace PicturePair

variable {p q : PicturePair} {f : FilterBank}

/-- The two pictures, exchanged. -/
def swap (p : PicturePair) : PicturePair :=
  { p with reference := p.distorted, distorted := p.reference }

theorem swap_atScale (p : PicturePair) (f : FilterBank) (k : ℕ) :
    p.swap.atScale f k = (p.atScale f k).swap := by
  induction k with
  | zero => rfl
  | succ k ih =>
      show (p.swap.atScale f k).next f = _
      rw [ih]
      rfl

/-- The two pairs have their reference in common. -/
def SameReference (p q : PicturePair) : Prop :=
  ∃ y : Raster Int p.dims, q = { p with distorted := y }

theorem SameReference.next (h : p.SameReference q) :
    (p.next f).SameReference (q.next f) := by
  obtain ⟨y, rfl⟩ := h
  exact ⟨_, rfl⟩

theorem SameReference.atScale (h : p.SameReference q) (k : ℕ) :
    (p.atScale f k).SameReference (q.atScale f k) := by
  induction k with
  | zero => exact h
  | succ k ih => exact ih.next

-- ================================================================= one scale

/-- The distorted picture is flat. -/
def Lost (p : PicturePair) : Prop := ∃ c, p.distorted.Flat c

theorem Lost.next (h : p.Lost) : (p.next f).Lost := by
  obtain ⟨c, hc⟩ := h
  exact hc.subBand_approximation p.nonempty

theorem Lost.atScale (h : p.Lost) (k : ℕ) : (p.atScale f k).Lost := by
  induction k with
  | zero => exact h
  | succ k ih => exact ih.next

variable (hf : f.high.Cancels)
include hf

theorem Lost.distortedDetail_eq (h : p.Lost) :
    p.distortedDetail f = Detail.zero p.dims.half := by
  obtain ⟨c, hc⟩ := h
  funext o
  exact hc.subBand_detail p.nonempty hf o

/-- Nothing is restored of lost detail, and nothing is added. -/
theorem Lost.scaleScore_eq (h : p.Lost) (scale : Fin Dims.scaleCount) :
    p.scaleScore f scale = {
      num := (Detail.zero p.dims.half).pooled (Pooling.innerRegion p.dims.half)
      den := ((p.referenceDetail f).visibleAt scale).pooled
        (Pooling.innerRegion p.dims.half) } := by
  have hzero := h.distortedDetail_eq hf
  have himpairment : p.impairment f = Detail.zero p.dims.half :=
    Detail.impairment_of_zero (.inr hzero)
  have hrestored : p.restored f = Detail.zero p.dims.half :=
    (Detail.restored_of_zero (.inr hzero)).trans hzero
  have hnum := num_of_impairment_zero himpairment scale
  rw [hrestored, Detail.visibleAt_zero] at hnum
  rw [← hnum]
  rfl

/-- The flat picture does not enter. -/
theorem Lost.scaleScore_congr (h : p.Lost) (h' : q.Lost)
    (hpq : p.SameReference q) (scale : Fin Dims.scaleCount) :
    p.scaleScore f scale = q.scaleScore f scale := by
  obtain ⟨y, rfl⟩ := hpq
  rw [h.scaleScore_eq hf, h'.scaleScore_eq hf]
  rfl

/-- Of detail that was not there all is restored. -/
theorem Lost.swap_scaleScore (h : p.Lost) (scale : Fin Dims.scaleCount) :
    p.swap.scaleScore f scale = (p.scaleScore f scale).swap := by
  have hzero : p.swap.referenceDetail f = Detail.zero p.swap.dims.half :=
    h.distortedDetail_eq hf
  have himpairment : p.swap.impairment f = Detail.zero p.swap.dims.half :=
    Detail.impairment_of_zero (.inl hzero)
  have hrestored : p.swap.restored f = p.referenceDetail f :=
    Detail.restored_of_zero (.inl hzero)
  have hnum := num_of_impairment_zero himpairment scale
  rw [hrestored] at hnum
  have hden : (p.swap.scaleScore f scale).den
      = (Detail.zero p.swap.dims.half).pooled
        (Pooling.innerRegion p.swap.dims.half) := by
    unfold scaleScore
    rw [hzero, Detail.visibleAt_zero]
  rw [h.scaleScore_eq hf]
  exact congrArg₂ ScaleScore.mk hnum hden

-- ================================================================ all scales

theorem Lost.swap_contribution (h : p.Lost) (k : Fin Dims.scaleCount) :
    p.swap.contribution f k = (p.contribution f k).swap := by
  unfold contribution
  rw [swap_atScale]
  exact (h.atScale k).swap_scaleScore hf k

/-- Exchanging the pictures exchanges the two sides of the score. -/
theorem Lost.swap_score (h : p.Lost) (limit : Binary64) :
    (p.swap.score f limit).num = (p.score f limit).den ∧
      (p.swap.score f limit).den = (p.score f limit).num ∧
      (p.swap.score f limit).scales
        = (p.score f limit).scales.map ScaleScore.swap := by
  refine ⟨?_, ?_, Vector.ext fun k hk => ?_⟩
  · unfold score
    simp only [h.swap_contribution hf]
    rfl
  · unfold score
    simp only [h.swap_contribution hf]
    rfl
  · rw [Vector.getElem_map, getElem_scales p f limit hk,
      getElem_scales p.swap f limit hk, h.swap_contribution hf]

/-- The score of lost detail does not depend on the flat picture. -/
theorem Lost.score_eq (h : p.Lost) (h' : q.Lost) (hpq : p.SameReference q)
    (limit : Binary64) : p.score f limit = q.score f limit :=
  score_congr (fun k =>
    (h.atScale k).scaleScore_congr hf (h'.atScale k) (hpq.atScale k) k) limit

/-- The numerator of lost detail has the terms of the area only. -/
theorem Lost.num_eq {num den : Fin Dims.scaleCount → ℕ} (h : p.Lost)
    (hc : p.Contributes f num den) (harea : p.dims.area ≤ 2 ^ 31)
    (k : Fin Dims.scaleCount) :
    ∃ n, Pooling.IsAreaRoot n (Pooling.innerRegion (p.dims.atScale k)).area ∧
      num k = 3 * n := by
  obtain ⟨n, hroot, hpooled⟩ := Detail.pooled_zero_denotes
    (Dims.half_nonempty (p.atScale f k).dims)
    ((p.area_half_atScale_le f k).trans harea)
  have hnum := hc.num_denotes k
  unfold contribution at hnum
  rw [(h.atScale k).scaleScore_eq hf] at hnum
  rw [dims_half_atScale] at hroot
  exact ⟨n, hroot, Nat.cast_injective (hnum.unique hpooled)⟩

theorem Lost.num_le {num den : Fin Dims.scaleCount → ℕ} (h : p.Lost)
    (hc : p.Contributes f num den) (harea : p.dims.area ≤ 2 ^ 31)
    (k : Fin Dims.scaleCount) : num k ≤ den k := by
  have hnum := hc.num_denotes k
  have hden := hc.den_denotes k
  unfold contribution at hnum hden
  rw [(h.atScale k).scaleScore_eq hf] at hnum hden
  have hle := Detail.pooled_atMost
    (x := Detail.zero (p.atScale f k).dims.half)
    (y := ((p.atScale f k).referenceDetail f).visibleAt k)
    ((p.area_half_atScale_le f k).trans harea) fun _ _ _ => Nat.zero_le _
  exact_mod_cast (hnum.atMost_iff hden).1 hle

/-- Where something of the reference is visible in the region, it is less. -/
theorem Lost.num_lt {num den : Fin Dims.scaleCount → ℕ} (h : p.Lost)
    (hc : p.Contributes f num den) (harea : p.dims.area ≤ 2 ^ 31)
    {k : Fin Dims.scaleCount} {o : Orientation}
    {i : Fin (p.atScale f k).dims.half.height}
    {j : Fin (p.atScale f k).dims.half.width}
    (hij : (Pooling.innerRegion (p.atScale f k).dims.half).Contains i j)
    (hx : ((p.atScale f k).referenceDetail f).visibleAt k o i j ≠ 0) :
    num k < den k := by
  have hnum := hc.num_denotes k
  have hden := hc.den_denotes k
  unfold contribution at hnum hden
  rw [(h.atScale k).scaleScore_eq hf] at hnum hden
  have hlt := Detail.pooled_zero_less
    ((p.area_half_atScale_le f k).trans harea) hij hx
  exact_mod_cast (hnum.less_iff hden).1 hlt

end PicturePair

-- ==================================================================== planes

/-- All samples of a plane are the same. -/
def Plane.Flat (p : Plane) : Prop := ∃ c, ∀ i j, p.sample i j = c

theorem Plane.Flat.lost {a z : Plane} (hz : z.Flat) (h : a.dims = z.dims) :
    (PicturePair.ofPlanes a z h).Lost := by
  obtain ⟨c, hc⟩ := hz
  exact ⟨c, fun i j => congrArg Int.ofNat (hc _ _)⟩

theorem PicturePair.ofPlanes_swap {a z : Plane} (h : a.dims = z.dims) :
    ofPlanes z a h.symm = (ofPlanes a z h).swap := by
  obtain ⟨samples, dims, stride, depth, hne, hle, henough⟩ := z
  obtain rfl : a.dims = dims := h
  rfl

/-- A cell of a window that is not zero is a coefficient that is not. -/
theorem BandSet.Shows.exists_ne_zero {c d : Dims} {b : BandSet c}
    {x : Detail d} (hx : b.Shows x) {o : Orientation}
    {i : Fin b.dims.height} {j : Fin b.dims.width} (h : b.detail o i j ≠ 0) :
    ∃ (i' : Fin d.height) (j' : Fin d.width), i'.val = i ∧ j'.val = j ∧
      x o i' j' ≠ 0 := by
  obtain rfl := hx.dims_eq
  rw [hx.detail_eq] at h
  exact ⟨i, j, rfl, rfl, h⟩

end AdditiveDetail

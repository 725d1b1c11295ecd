/-
The stages of a scale on a machine that checks its indices.

Each stage is written again as loops over natural numbers that look up
every cell they read, in the window it is read through, and every cell
they write. A window is sliced from its buffer first, and a slice that is
larger than the buffer, or a region that ends in front of its start or
past its window, stops the machine as an index does.

A stage that writes a window reads the same place of other windows, or the
places around it; these are reflected, and so in bounds. Where the windows
agree in size the machine then does what the stage does, whatever the
buffers hold, and where they do not both stop: every lemma here is an
equation without a hypothesis.
-/
import Mathlib.Algebra.BigOperators.Intervals
import AdditiveDetail.Proofs.Detail.Contribution
import AdditiveDetail.Proofs.Detail.Stages
import AdditiveDetail.Proofs.Wavelet.Machine

namespace AdditiveDetail

-- ========================================================= reading and writing

/-- The value at a row and a column. -/
def Raster.get? {α : Type} {d : Dims} (x : Raster α d) (i j : Nat) :
    Option α := do
  let i ← index? i d.height
  let j ← index? j d.width
  return x i j

theorem Raster.get?_val {α : Type} {d : Dims} (x : Raster α d)
    (i : Fin d.height) (j : Fin d.width) : x.get? i j = some (x i j) := by
  unfold get?
  rw [index?_val, index?_val]
  rfl

namespace Grid

variable {α : Type} {c d : Dims}

/-- `write` with look-ups: the values are computed cell by cell. -/
def writeIndexed (g : Grid α c) (d : Dims) (f : Nat → Nat → Option α) :
    Option (Grid α c) :=
  if h : d ≤ c then
    Fin.foldlM d.height (fun g i =>
      Fin.foldlM d.width (fun g j => do
        let x ← f i j
        let i ← index? i d.height
        let j ← index? j d.width
        return g.set (i.castLE (Dims.height_le h)) (j.castLE (Dims.width_le h)) x) g) g
  else none

/-- Rows without cells make no difference. -/
theorem write_eq_writeRows (g : Grid α c) (h : d ≤ c) (x : Raster α d) :
    g.write d h x = g.writeRows d h x := by
  ext i j
  rw [get_write, get_writeRows]

theorem writeIndexed_eq (g : Grid α c) (h : d ≤ c) {f : Nat → Nat → Option α}
    {x : Raster α d}
    (hf : ∀ (i : Fin d.height) (j : Fin d.width), f i j = some (x i j)) :
    g.writeIndexed d f = some (g.write d h x) := by
  rw [write_eq_writeRows]
  unfold writeIndexed
  rw [dif_pos h]
  refine foldlM_eq_foldl (fun _ _ => True) trivial (fun _ _ _ => trivial)
    fun i g _ => ?_
  refine foldlM_eq_foldl (fun _ _ => True) trivial (fun _ _ _ => trivial)
    fun j g _ => ?_
  simp only [hf, index?_val]
  rfl

end Grid

namespace BandSet

variable {c c₁ c₂ c₃ c₄ d : Dims}

/-- `writeDetails` with look-ups. -/
def writeDetailsIndexed (b : BandSet c) (d : Dims)
    (f : Orientation → Nat → Nat → Option Int16) : Option (BandSet c) := do
  let b ← (b.setDims d).toOption
  let horizontal ← b.details.horizontal.writeIndexed d (f .horizontal)
  let vertical ← b.details.vertical.writeIndexed d (f .vertical)
  let diagonal ← b.details.diagonal.writeIndexed d (f .diagonal)
  return { b with details := { horizontal, vertical, diagonal } }

theorem writeDetailsIndexed_eq (b : BandSet c)
    {f : Orientation → Nat → Nat → Option Int16} {x : Detail d}
    (hf : ∀ (o : Orientation) (i : Fin d.height) (j : Fin d.width),
      f o i j = some (x o i j)) :
    b.writeDetailsIndexed d f = (b.writeDetails d x).toOption := by
  unfold writeDetailsIndexed writeDetails setDims
  by_cases h : d ≤ c
  · have hwrite (o : Orientation) (g : Grid Int16 c) :
        g.writeIndexed d (f o) = some (g.write d h (x o)) :=
      g.writeIndexed_eq h (hf o)
    rw [dif_pos h, dif_pos h]
    simp only [Except.toOption, hwrite, Option.bind_eq_bind, Option.bind_some]
    rfl
  · rw [dif_neg h, dif_neg h]
    rfl

/-- The coefficients at a row and a column. -/
def place? (b : BandSet c) (i j : Nat) : Option (Details Int16) := do
  let horizontal ← (b.detail .horizontal).get? i j
  let vertical ← (b.detail .vertical).get? i j
  let diagonal ← (b.detail .diagonal).get? i j
  return { horizontal, vertical, diagonal }

theorem Shows.place?_val {b : BandSet c} {x : Detail d} (hx : b.Shows x)
    (i : Fin d.height) (j : Fin d.width) :
    b.place? i j = some (x.place i j) := by
  obtain rfl := hx.dims_eq
  unfold place?
  simp only [Raster.get?_val, hx.detail_eq]
  rfl

-- ================================================================== the stages

/-- The coefficients of an orientation at a row and a column, split. -/
def split? (reference : BandSet c₁) (distorted : BandSet c₂) (o : Orientation)
    (i j : Nat) : Option Split := do
  let x ← reference.place? i j
  let y ← distorted.place? i j
  return (Split.ofDetails x y).get o

theorem Shows.split?_val {reference : BandSet c₁} {distorted : BandSet c₂}
    {x y : Detail d} (hx : reference.Shows x) (hy : distorted.Shows y)
    (o : Orientation) (i : Fin d.height) (j : Fin d.width) :
    reference.split? distorted o i j = some ((x.split y i j).get o) := by
  unfold split?
  rw [hx.place?_val, hy.place?_val]
  rfl

/-- `decouple` with look-ups. -/
def decoupleIndexed (reference : BandSet c₁) (distorted : BandSet c₂)
    (restored : BandSet c₃) (impairment : BandSet c₄) :
    Option (BandSet c₃ × BandSet c₄) :=
  if reference.dims = distorted.dims then do
    let restored ← restored.writeDetailsIndexed reference.dims fun o i j =>
      (reference.split? distorted o i j).map Split.restored
    let impairment ← impairment.writeDetailsIndexed reference.dims fun o i j =>
      (reference.split? distorted o i j).map Split.impairment
    return (restored, impairment)
  else none

theorem decoupleIndexed_eq (reference : BandSet c₁) (distorted : BandSet c₂)
    (restored : BandSet c₃) (impairment : BandSet c₄) :
    reference.decoupleIndexed distorted restored impairment
      = (reference.decouple distorted restored impairment).toOption := by
  unfold decoupleIndexed
  by_cases h : reference.dims = distorted.dims
  · obtain ⟨x, hx⟩ := reference.exists_shows rfl
    obtain ⟨y, hy⟩ := distorted.exists_shows h.symm
    rw [if_pos h, decouple_eq restored impairment hx hy,
      restored.writeDetailsIndexed_eq (x := x.restored y) fun o i j => by
        rw [hx.split?_val hy]; rfl,
      impairment.writeDetailsIndexed_eq (x := x.impairment y) fun o i j => by
        rw [hx.split?_val hy]; rfl]
    cases restored.writeDetails reference.dims (x.restored y) with
    | error e => rfl
    | ok r =>
        cases impairment.writeDetails reference.dims (x.impairment y) with
        | error e => rfl
        | ok a => rfl
  · rw [if_neg h]
    unfold decouple
    rw [dif_neg h]
    rfl

/-- `filterVisible` with look-ups. -/
def filterVisibleIndexed (scale : Nat) (src : BandSet c₁)
    (dst : BandSet c₂) : Option (BandSet c₂) := do
  let scale ← index? scale Dims.scaleCount
  dst.writeDetailsIndexed src.dims fun o i j =>
    ((src.detail o).get? i j).map (visible (o.visibility.weight scale))

theorem filterVisibleIndexed_eq (scale : Nat) (src : BandSet c₁)
    (dst : BandSet c₂) : filterVisibleIndexed scale src dst
      = (filterVisible scale src dst).toOption := by
  unfold filterVisibleIndexed filterVisible
  by_cases h : scale < Dims.scaleCount
  · rw [dif_pos h, index?_eq h, Option.bind_eq_bind, Option.bind_some]
    apply writeDetailsIndexed_eq
    intro o i j
    rw [Raster.get?_val]
    rfl
  · rw [dif_neg h]
    unfold index?
    rw [dif_neg h]
    cases dst.setDims src.dims with
    | error e => rfl
    | ok b => rfl

/-- `maskBy` with look-ups. The thresholds are read through a slice. -/
def maskByIndexed (restored : BandSet c₁) (threshold : Grid Int16 c₂)
    (masked : BandSet c₃) : Option (BandSet c₃) :=
  if h : restored.dims ≤ c₂ then
    masked.writeDetailsIndexed restored.dims fun o i j => do
      let x ← (restored.detail o).get? i j
      let t ← Raster.get? (threshold.window restored.dims h) i j
      return Masking.mask x t
  else none

theorem maskByIndexed_eq (restored : BandSet c₁) (threshold : Grid Int16 c₂)
    (masked : BandSet c₃) : restored.maskByIndexed threshold masked
      = (restored.maskBy threshold masked).toOption := by
  unfold maskByIndexed maskBy
  by_cases h : restored.dims ≤ c₂
  · rw [dif_pos h, dif_pos h]
    apply writeDetailsIndexed_eq
    intro o i j
    rw [Raster.get?_val, Raster.get?_val]
    rfl
  · rw [dif_neg h, dif_neg h]
    cases masked.setDims restored.dims with
    | error e => rfl
    | ok b => rfl

end BandSet

-- ============================================================== the thresholds

namespace Masking

/-- `around` with look-ups. -/
def aroundIndexed (d : Dims) (i j : Nat) : Option (Surroundings d) := do
  let above ← index? (reflect (i - 1) d.height) d.height
  let row ← index? i d.height
  let below ← index? (reflect (i + 1) d.height) d.height
  let left ← index? (reflect (j - 1) d.width) d.width
  let column ← index? j d.width
  let right ← index? (reflect (j + 1) d.width) d.width
  return { above, row, below, left, column, right }

theorem aroundIndexed_val {d : Dims} (h : d.Nonempty) (i : Fin d.height)
    (j : Fin d.width) : aroundIndexed d i j = some (around h i j) := by
  unfold aroundIndexed
  simp only [index?_eq (reflect_lt _ h.height_pos),
    index?_eq (reflect_lt _ h.width_pos), index?_val]
  rfl

/-- `threshold` with look-ups. -/
def thresholdIndexed {d : Dims} (impairment : Orientation → Raster Int16 d)
    (i j : Nat) : Option Int16 := do
  let s ← aroundIndexed d i j
  return Orientation.all.foldl
    (fun sum o => sum + narrow (scaleDown (neighbourhood (impairment o) s))) 0

end Masking

namespace Grid

variable {c c₁ : Dims}

/-- `writeThreshold` with look-ups. -/
def writeThresholdIndexed (threshold : Grid Int16 c)
    (impairment : BandSet c₁) : Option (Grid Int16 c) :=
  threshold.writeIndexed impairment.dims
    (Masking.thresholdIndexed impairment.detail)

theorem writeThresholdIndexed_eq (threshold : Grid Int16 c)
    (impairment : BandSet c₁) : threshold.writeThresholdIndexed impairment
      = (threshold.writeThreshold impairment).toOption := by
  unfold writeThresholdIndexed writeThreshold
  by_cases hfit : impairment.dims ≤ c
  · rw [dif_pos hfit]
    by_cases h : impairment.dims.Nonempty
    · rw [dif_pos h]
      apply threshold.writeIndexed_eq hfit
      intro i j
      unfold Masking.thresholdIndexed
      rw [Masking.aroundIndexed_val h]
      rfl
    · rw [dif_neg h, threshold.writeIndexed_eq hfit (x := fun _ _ => 0)
        fun i j => absurd ⟨j.pos, i.pos⟩ h]
      unfold write
      rw [if_neg h]
      rfl
  · rw [dif_neg hfit]
    unfold writeIndexed
    rw [dif_neg hfit]
    rfl

end Grid

-- ================================================================ the region

namespace Pooling

variable {d : Dims}

/-- `cubeSum` with look-ups: the rows and the columns of the region are
sliced from the band, and counted from where they start. -/
def cubeSumIndexed (band : Raster Int16 d) (r : Region) : Option Nat :=
  if r.bottom ≤ d.height ∧ r.right ≤ d.width then
    Fin.foldlM (r.bottom - r.top) (fun sum i =>
      Fin.foldlM (r.right - r.left) (fun sum j => do
        let x ← band.get? (r.top + i) (r.left + j)
        return sum + cubed x) sum) 0
  else none

/-- What a slice sums up are the terms that stand in it. -/
theorem sum_slice {n first last : ℕ} (h : last ≤ n) (term : Fin n → ℕ) :
    ∑ i : Fin (last - first), term ⟨first + i, by omega⟩
      = ∑ i : Fin n, if first ≤ i ∧ i < last then term i else 0 := by
  obtain ⟨g, hg⟩ : ∃ g : ℕ → ℕ, ∀ i : Fin n, term i = g i :=
    ⟨fun i => if h : i < n then term ⟨i, h⟩ else 0, fun i => by simp⟩
  have hfilter : (Finset.range n).filter (fun i => first ≤ i ∧ i < last)
      = Finset.Ico first last := by
    ext i
    simp only [Finset.mem_filter, Finset.mem_range, Finset.mem_Ico]
    omega
  simp only [hg]
  rw [Fin.sum_univ_eq_sum_range (fun i => g (first + i)),
    Fin.sum_univ_eq_sum_range (fun i => if first ≤ i ∧ i < last then g i else 0),
    ← Finset.sum_filter, hfilter, Finset.sum_Ico_eq_sum_range]

theorem cubeSumIndexed_eq {band : Raster Int16 d} {r : Region}
    (hbottom : r.bottom ≤ d.height) (hright : r.right ≤ d.width) :
    cubeSumIndexed band r = some (cubeSum band r) := by
  have hcell (i : Fin (r.bottom - r.top)) (j : Fin (r.right - r.left)) :
      band.get? (r.top + i) (r.left + j)
        = some (band ⟨r.top + i, by omega⟩ ⟨r.left + j, by omega⟩) :=
    Raster.get?_val band ⟨r.top + i, by omega⟩ ⟨r.left + j, by omega⟩
  have hrow (i : Fin (r.bottom - r.top)) (sum : ℕ) :
      Fin.foldlM (r.right - r.left) (fun sum j => do
        let x ← band.get? (r.top + i) (r.left + j)
        return sum + cubed x) sum
        = some (sum + ∑ j : Fin d.width,
          if r.left ≤ j ∧ j < r.right then
            cubed (band ⟨r.top + i, by omega⟩ j) else 0) := by
    rw [← sum_slice hright, ← foldl_add_eq_sum]
    refine foldlM_eq_foldl (fun _ _ => True) trivial (fun _ _ _ => trivial)
      fun j sum _ => ?_
    rw [hcell]
    rfl
  unfold cubeSumIndexed
  rw [if_pos ⟨hbottom, hright⟩, cubeSum_eq]
  have hcount : ∑ i : Fin d.height, ∑ j : Fin d.width,
      (if r.Contains i j then cubed (band i j) else 0)
      = ∑ i : Fin d.height, if r.top ≤ i ∧ i < r.bottom then
          ∑ j : Fin d.width, if r.left ≤ j ∧ j < r.right then
            cubed (band i j) else 0
        else 0 := by
    refine Finset.sum_congr rfl fun i _ => ?_
    by_cases hi : r.top ≤ i.val ∧ i.val < r.bottom <;>
      simp [Region.Contains, hi]
  rw [hcount, ← sum_slice hbottom, ← Nat.zero_add (∑ i, _),
    ← foldl_add_eq_sum]
  refine foldlM_eq_foldl (fun _ _ => True) trivial (fun _ _ _ => trivial)
    fun i sum _ => hrow i sum

theorem scoredRegion_bounds {factor : Binary64} {r : Region}
    (h : scoredRegion d factor = .ok r) :
    r.bottom ≤ d.height ∧ r.right ≤ d.width := by
  unfold scoredRegion at h
  simp only at h
  split at h
  · cases h
    exact ⟨Nat.sub_le _ _, Nat.sub_le _ _⟩
  · cases h

/-- A region that pooling accepts is a slice of its picture. -/
theorem pooledRegion_bounds {factor : Binary64} {r : Region}
    (h : pooledRegion d factor = .ok r) :
    r.top ≤ r.bottom ∧ r.bottom ≤ d.height ∧ r.left ≤ r.right ∧
      r.right ≤ d.width := by
  unfold pooledRegion at h
  cases hscored : scoredRegion d factor with
  | error e =>
      rw [hscored] at h
      cases h
  | ok r' =>
      obtain ⟨hbottom, hright⟩ := scoredRegion_bounds hscored
      rw [hscored] at h
      change (if r'.bottom < r'.top ∨ r'.right < r'.left
        then .error Fault.outOfBounds else .ok r') = Except.ok r at h
      split at h
      · cases h
      · next hordered =>
          cases h
          omega

end Pooling

/-- `contribution` with look-ups. -/
def BandSet.contributionIndexed {c : Dims} (b : BandSet c)
    (factor : Binary64) : Option Binary64 := do
  let r ← (Pooling.pooledRegion b.dims factor).toOption
  let area := Pooling.areaTerm r.area
  let terms ← Orientation.all.mapM fun o => do
    let sum ← Pooling.cubeSumIndexed (b.detail o) r
    return Pooling.sumTerm sum + area
  return Binary.sum terms

theorem BandSet.contributionIndexed_eq {c : Dims} (b : BandSet c)
    (factor : Binary64) :
    b.contributionIndexed factor = (b.contribution factor).toOption := by
  unfold contributionIndexed contribution
  cases h : Pooling.pooledRegion b.dims factor with
  | error e => rfl
  | ok r =>
      obtain ⟨-, hbottom, -, hright⟩ := Pooling.pooledRegion_bounds h
      have hsum (o : Orientation) :
          Pooling.cubeSumIndexed (b.detail o) r
            = some (Pooling.cubeSum (b.detail o) r) :=
        Pooling.cubeSumIndexed_eq hbottom hright
      simp only [Except.toOption, Orientation.all, List.mapM_cons,
        List.mapM_nil, hsum, Option.bind_eq_bind, Option.bind_some,
        Option.pure_def]
      rfl

end AdditiveDetail

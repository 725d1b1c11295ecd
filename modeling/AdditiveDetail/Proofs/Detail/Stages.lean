/-
The stages of a scale as functions of what the windows show.

A stage reads the window of one set of buffers and writes the window of
another. `Shows` relates a set of bands to the detail that its window
shows; every other cell of the buffers is left open. Each stage then has
one lemma: whatever its destination holds, the stage succeeds and its
destination shows the stage's rule, applied place by place to what its
sources show. Behind these lemmas no proof looks at a buffer again.
-/
import AdditiveDetail.Detail.Decoupling
import AdditiveDetail.Detail.Masking
import AdditiveDetail.Detail.Pooling
import AdditiveDetail.Detail.Visibility
import AdditiveDetail.Proofs.Wavelet.Decomposition

namespace AdditiveDetail

-- ================================================================ the detail

/-- The detail of a picture: a raster for each orientation. -/
abbrev Detail (d : Dims) := Orientation → Raster Int16 d

namespace Detail

variable {d : Dims}

/-- The detail that is zero everywhere. -/
def zero (d : Dims) : Detail d := fun _ _ _ => 0

/-- The coefficients of one place. -/
def place (x : Detail d) (i : Fin d.height) (j : Fin d.width) :
    Details Int16 :=
  Details.ofFn fun o => x o i j

/-- Distorted detail split against its reference, at one place. -/
def split (reference distorted : Detail d) (i : Fin d.height)
    (j : Fin d.width) : Details Split :=
  Split.ofDetails (reference.place i j) (distorted.place i j)

/-- What the distortion kept of the reference. -/
def restored (reference distorted : Detail d) : Detail d :=
  fun o i j => ((reference.split distorted i j).get o).restored

/-- What the distortion added to the reference. -/
def impairment (reference distorted : Detail d) : Detail d :=
  fun o i j => ((reference.split distorted i j).get o).impairment

/-- Detail in units of what is visible at a scale. -/
def visibleAt (scale : Fin Dims.scaleCount) (x : Detail d) : Detail d :=
  fun o i j => visible (o.visibility.weight scale) (x o i j)

/-- What exceeds a threshold. -/
def maskedBy (threshold : Raster Int16 d) (x : Detail d) : Detail d :=
  fun o i j => Masking.mask (x o i j) (threshold i j)

/-- The cubic norm of detail inside a region. -/
def pooled (r : Region) (x : Detail d) : Binary64 :=
  Binary.sum (Orientation.all.map fun o =>
    Pooling.sumTerm (Pooling.cubeSum (x o) r) + Pooling.areaTerm r.area)

end Detail

namespace BandSet

variable {c c₁ c₂ c₃ c₄ d : Dims}

/-- The window has the size `d` and shows this detail. -/
structure Shows (b : BandSet c) (x : Detail d) : Prop where
  dims_eq : b.dims = d
  window_eq : ∀ o, (b.details.get o).window d (dims_eq ▸ b.fits) = x o

/-- What the window shows is fixed by the window. -/
theorem Shows.detail_eq {b : BandSet c} {x : Detail b.dims} (h : b.Shows x) :
    b.detail = x :=
  funext h.window_eq

/-- Every window shows something. -/
theorem exists_shows (b : BandSet c) (h : b.dims = d) :
    ∃ x : Detail d, b.Shows x := by
  subst h
  exact ⟨b.detail, rfl, fun _ => rfl⟩

theorem writeDetails_shows (b : BandSet c) (h : d ≤ c) (x : Detail d) :
    ∃ b', b.writeDetails d x = .ok b' ∧ b'.Shows x := by
  unfold writeDetails
  rw [dif_pos h]
  refine ⟨_, rfl, rfl, fun o => ?_⟩
  rw [Details.get_ofFn]
  exact Grid.window_write ..

theorem writeBands_shows (b : BandSet c) (h : d ≤ c)
    (f : Band → Raster Int16 d) :
    (b.writeBands d h f).Shows fun o => f (.detail o) :=
  ⟨rfl, fun o => b.view_writeBands d h f (.detail o)⟩

-- ================================================================ the stages

/-- Splitting writes what the two windows show, split place by place. -/
theorem decouple_eq {reference : BandSet c₁} {distorted : BandSet c₂}
    (restored : BandSet c₃) (impairment : BandSet c₄) {x y : Detail d}
    (hx : reference.Shows x) (hy : distorted.Shows y) :
    reference.decouple distorted restored impairment = do
      let r ← restored.writeDetails d (x.restored y)
      let a ← impairment.writeDetails d (x.impairment y)
      return (r, a) := by
  obtain rfl := hx.dims_eq
  obtain ⟨dims, fits, approximation, details⟩ := distorted
  obtain rfl : dims = reference.dims := hy.dims_eq
  unfold decouple
  rw [dif_pos rfl]
  simp only [Grid.get_ofRaster, detailsAt, hx.detail_eq, hy.detail_eq]
  rfl

theorem decouple_shows {reference : BandSet c₁} {distorted : BandSet c₂}
    (restored : BandSet c₃) (impairment : BandSet c₄) {x y : Detail d}
    (hx : reference.Shows x) (hy : distorted.Shows y) (h₃ : d ≤ c₃)
    (h₄ : d ≤ c₄) :
    ∃ r a, reference.decouple distorted restored impairment = .ok (r, a) ∧
      r.Shows (x.restored y) ∧ a.Shows (x.impairment y) := by
  obtain ⟨r, hr, hrs⟩ := restored.writeDetails_shows h₃ (x.restored y)
  obtain ⟨a, ha, has⟩ := impairment.writeDetails_shows h₄ (x.impairment y)
  refine ⟨r, a, ?_, hrs, has⟩
  rw [decouple_eq restored impairment hx hy, hr, ha]
  rfl

theorem filterVisible_shows {src : BandSet c₁} (dst : BandSet c₂)
    {x : Detail d} (hx : src.Shows x) (h : d ≤ c₂)
    (scale : Fin Dims.scaleCount) :
    ∃ b, src.filterVisible scale dst = .ok b ∧ b.Shows (x.visibleAt scale) := by
  obtain rfl := hx.dims_eq
  obtain ⟨b, hb, hbs⟩ := dst.writeDetails_shows h (x.visibleAt scale)
  refine ⟨b, ?_, hbs⟩
  unfold filterVisible
  rw [dif_pos scale.isLt, hx.detail_eq]
  exact hb

/-- Weighting that succeeded was done for a scored scale, and shows the
weighted detail of its source. -/
theorem shows_of_filterVisible {scale : Nat} {src : BandSet c₁}
    {dst b : BandSet c₂} (h : src.filterVisible scale dst = .ok b)
    {x : Detail d} (hx : src.Shows x) :
    ∃ hscale : scale < Dims.scaleCount,
      b.Shows (x.visibleAt ⟨scale, hscale⟩) := by
  obtain rfl := hx.dims_eq
  by_cases hscale : scale < Dims.scaleCount
  · refine ⟨hscale, ?_⟩
    by_cases hfit : src.dims ≤ c₂
    · obtain ⟨b', hb', hshows⟩ :=
        filterVisible_shows dst hx hfit ⟨scale, hscale⟩
      obtain rfl : b' = b := Except.ok.inj (hb'.symm.trans h)
      exact hshows
    · unfold filterVisible writeDetails at h
      rw [dif_pos hscale, dif_neg hfit] at h
      cases h
  · unfold filterVisible at h
    rw [dif_neg hscale] at h
    cases hset : dst.setDims src.dims <;> rw [hset] at h <;> cases h

theorem maskBy_shows {restored : BandSet c₁} {threshold : Grid Int16 c₂}
    (masked : BandSet c₃) {x : Detail d} {t : Raster Int16 d}
    (hx : restored.Shows x) (h₂ : d ≤ c₂) (ht : threshold.window d h₂ = t)
    (h₃ : d ≤ c₃) :
    ∃ b, restored.maskBy threshold masked = .ok b ∧ b.Shows (x.maskedBy t) := by
  obtain rfl := hx.dims_eq
  obtain ⟨b, hb, hbs⟩ := masked.writeDetails_shows h₃ (x.maskedBy t)
  refine ⟨b, ?_, hbs⟩
  unfold maskBy
  rw [dif_pos h₂, hx.detail_eq, ht]
  exact hb

/-- The contribution looks at the window only. -/
theorem contribution_eq {b : BandSet c} {x : Detail d} (hx : b.Shows x)
    {factor : Binary64} {r : Region}
    (hr : Pooling.pooledRegion d factor = .ok r) :
    b.contribution factor = .ok (x.pooled r) := by
  obtain rfl := hx.dims_eq
  unfold contribution
  rw [hr, hx.detail_eq]
  rfl

end BandSet

/-- The thresholds of an impairment are written to the window. -/
theorem Grid.writeThreshold_eq {c c₁ d : Dims} (threshold : Grid Int16 c)
    {impairment : BandSet c₁} {x : Detail d} (hx : impairment.Shows x)
    (hd : d.Nonempty) (h : d ≤ c) :
    threshold.writeThreshold impairment
      = .ok (threshold.write d h (Masking.threshold x hd)) := by
  obtain rfl := hx.dims_eq
  unfold Grid.writeThreshold
  rw [dif_pos h, dif_pos hd, hx.detail_eq]

/-- A window without places is left as it is. -/
theorem Grid.writeThreshold_empty {c c₁ : Dims} (threshold : Grid Int16 c)
    {impairment : BandSet c₁} (hd : ¬impairment.dims.Nonempty)
    (h : impairment.dims ≤ c) :
    threshold.writeThreshold impairment = .ok threshold := by
  unfold Grid.writeThreshold
  rw [dif_pos h, dif_neg hd]

theorem Grid.writeThreshold_window {c c₁ d : Dims} (threshold : Grid Int16 c)
    {impairment : BandSet c₁} {x : Detail d} (hx : impairment.Shows x)
    (hd : d.Nonempty) (h : d ≤ c) :
    ∃ t, threshold.writeThreshold impairment = .ok t ∧
      t.window d h = Masking.threshold x hd :=
  ⟨_, threshold.writeThreshold_eq hx hd h, window_write ..⟩

/-- The thresholds of an impairment are written, be there places or not. -/
theorem Grid.exists_writeThreshold {c c₁ d : Dims} (threshold : Grid Int16 c)
    {impairment : BandSet c₁} {x : Detail d} (hx : impairment.Shows x)
    (h : d ≤ c) :
    ∃ t, threshold.writeThreshold impairment = .ok t ∧
      ∀ hd : d.Nonempty, t.window d h = Masking.threshold x hd := by
  by_cases hd : d.Nonempty
  · obtain ⟨t, ht, hwindow⟩ := threshold.writeThreshold_window hx hd h
    exact ⟨t, ht, fun _ => hwindow⟩
  · obtain rfl := hx.dims_eq
    exact ⟨threshold, threshold.writeThreshold_empty hd h,
      fun hd' => absurd hd' hd⟩

end AdditiveDetail

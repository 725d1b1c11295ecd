/-
Which bands a picture excites that changes in one direction only.

# A scale after the other

The approximation of a picture with equal rows has equal rows, and that of
a picture with equal columns has equal columns. So what holds of the bands
of the first scale (`Wavelet/Flat`) holds of those of every scale: nothing
on the way makes a difference where the picture has none. The statement is
about the reference of a pair; for the distorted picture the pair is
exchanged.

# The buffers

A level hands the approximations on that its two sets of bands show
(`level_handsOff`). So the windows behind a scale show all four bands of
the pair that the scale started from.
-/
import AdditiveDetail.Proofs.Scoring.Flat

namespace AdditiveDetail

-- ============================================================== all four bands

/-- Bands that are excited as a picture changes: none that is high-pass in a
direction in which the picture does not change, and none but a constant
approximation where it does not change at all. -/
structure Image.Excites (src : Image) {d : Dims}
    (bands : Band → Raster Int16 d) : Prop where
  equal_rows : src.sample.RowsEqual → ∀ i j,
    bands (.detail .horizontal) i j = 0 ∧ bands (.detail .diagonal) i j = 0
  equal_columns : src.sample.ColumnsEqual → ∀ i j,
    bands (.detail .vertical) i j = 0 ∧ bands (.detail .diagonal) i j = 0
  flat : (∃ c, src.sample.Flat c) → (∀ o i j, bands (.detail o) i j = 0) ∧
    ∃ a, ∀ i j, bands .approximation i j = a

namespace PicturePair

variable {p : PicturePair} {f : FilterBank}

theorem rowsEqual_atScale (h : p.reference.RowsEqual) (k : ℕ) :
    (p.atScale f k).reference.RowsEqual := by
  induction k with
  | zero => exact h
  | succ k ih => exact (ih.subBand _ _).map Int16.toInt

theorem columnsEqual_atScale (h : p.reference.ColumnsEqual) (k : ℕ) :
    (p.atScale f k).reference.ColumnsEqual := by
  induction k with
  | zero => exact h
  | succ k ih => exact (ih.subBand _ _).map Int16.toInt

/-- The bands of every scale are excited as the picture changes that the
first scale starts from. -/
theorem referenceImage_excites (p : PicturePair) (hf : f.high.Cancels)
    (k : ℕ) : p.referenceImage.Excites ((p.atScale f k).referenceBands f) := by
  have hne := (p.atScale f k).nonempty
  constructor
  · intro hrows i j
    have hk := rowsEqual_atScale (f := f) hrows k
    exact ⟨hk.subBand_high hne hf rfl i j, hk.subBand_high hne hf rfl i j⟩
  · intro hcolumns i j
    have hk := columnsEqual_atScale (f := f) hcolumns k
    exact ⟨hk.subBand_high hne hf rfl i j, hk.subBand_high hne hf rfl i j⟩
  · rintro ⟨c, hflat⟩
    have hrows := rowsEqual_atScale (f := f) hflat.rowsEqual k
    have hcolumns := columnsEqual_atScale (f := f) hflat.columnsEqual k
    obtain ⟨c', hk⟩ := hrows.exists_flat hcolumns hne
    have hhalf := (p.atScale f k).dims.half_nonempty
    refine ⟨fun o i j => congrFun (congrFun (hk.subBand_detail hne hf o) i) j,
      (p.atScale f k).referenceBands f .approximation
        ⟨0, hhalf.height_pos⟩ ⟨0, hhalf.width_pos⟩, fun i j => ?_⟩
    exact (hrows.subBand hne _ i _ j).trans (hcolumns.subBand hne _ _ j _)

theorem distortedImage_excites (p : PicturePair) (hf : f.high.Cancels)
    (k : ℕ) : p.distortedImage.Excites ((p.atScale f k).distortedBands f) := by
  have hswap := p.swap.referenceImage_excites hf k
  rw [swap_atScale] at hswap
  exact hswap

end PicturePair

-- ================================================================= the buffers

/-- The window has the size `d` and shows these four bands. -/
structure BandSet.ShowsBands {c d : Dims} (b : BandSet c)
    (bands : Band → Raster Int16 d) : Prop where
  dims_eq : b.dims = d
  window_eq : ∀ band, (b.buffer band).window d (dims_eq ▸ b.fits) = bands band

theorem BandSet.ShowsBands.excitedBy {c d : Dims} {b : BandSet c}
    {bands : Band → Raster Int16 d} (h : b.ShowsBands bands) {src : Image}
    (hsrc : src.Excites bands) : src.Excites b.view := by
  obtain rfl := h.dims_eq
  rwa [← show b.view = bands from funext h.window_eq] at hsrc

/-- Details and an approximation that was handed on. -/
theorem BandSet.Shows.showsBands {c d : Dims} {b : BandSet c}
    {bands : Band → Raster Int16 d} (h : b.Shows fun o => bands (.detail o))
    {g : Grid Int16 c} {hfit : d ≤ c}
    (hg : g.window d hfit = bands .approximation)
    (hoff : g.window b.dims b.fits = b.view .approximation) :
    b.ShowsBands bands := by
  obtain rfl := h.dims_eq
  refine ⟨rfl, fun band => ?_⟩
  cases band with
  | approximation => exact hoff.symm.trans hg
  | detail o => exact h.window_eq o

namespace Bench

variable {capacity : Dims} {maxWidth : Nat}

/-- The pictures of the next scale are the approximations that the windows
show. -/
structure HandsOff (b : Bench maxWidth capacity) : Prop where
  reference : b.arena.referenceScale.window b.arena.reference.dims
    b.arena.reference.fits = b.arena.reference.view .approximation
  distorted : b.arena.distortedScale.window b.arena.distorted.dims
    b.arena.distorted.fits = b.arena.distorted.view .approximation

theorem level_handsOff {b b' : Bench maxWidth capacity} {scale : ℕ}
    {reference distorted : Image} {s : ScaleScore}
    (h : b.level scale reference distorted = .ok (s, b')) : b'.HandsOff := by
  unfold level at h
  simp only [bind_eq_ok] at h
  obtain ⟨b₁, -, ⟨s', b₂⟩, -, arena, hhandOff, hb'⟩ := h
  obtain ⟨-, rfl⟩ := Prod.mk.inj (Except.ok.inj hb')
  unfold Arena.handOff at hhandOff
  split at hhandOff
  · obtain rfl := Except.ok.inj hhandOff
    exact ⟨Grid.window_write .., Grid.window_write ..⟩
  · cases hhandOff

theorem throughScale_handsOff {b b' : Bench maxWidth capacity}
    {reference distorted : Image} {k : ℕ} {s : ScaleScore}
    (h : b.throughScale reference distorted k = .ok (s, b')) :
    b'.HandsOff := by
  cases k with
  | zero => exact level_handsOff h
  | succ k =>
      unfold throughScale nextLevel at h
      simp only [bind_eq_ok] at h
      obtain ⟨_, -, _, -, _, -, hlevel⟩ := h
      exact level_handsOff hlevel

/-- Behind a scale the windows show all bands of its pictures. -/
theorem Scored.showsBands {b : Bench maxWidth capacity} {p : PicturePair}
    {f : FilterBank} {scale : Fin Dims.scaleCount} (hb : b.Scored p f scale)
    (hoff : b.HandsOff) :
    b.arena.reference.ShowsBands (p.referenceBands f) ∧
      b.arena.distorted.ShowsBands (p.distortedBands f) :=
  ⟨hb.reference.showsBands hb.referenceScale hoff.reference,
    hb.distorted.showsBands hb.distortedScale hoff.distorted⟩

-- =================================================================== all scales

/-- DIRECTIONS: two planes of one size, which is any, of any samples, go
through the scales in buffers that are large enough and have any contents.
At every scale, and for each of the two planes: where its rows are equal its
horizontal and diagonal bands are zero, where its columns are equal its
vertical and diagonal bands are zero, and where it is flat it has no detail
and an approximation of one value. -/
theorem throughScale_excites (b : Bench maxWidth capacity)
    (hfilters : b.transform.filters = FilterBank.daubechies)
    (reference distorted : Plane) (hdims : reference.dims = distorted.dims)
    (hw : reference.dims.width ≤ maxWidth)
    (hfit : reference.dims.half ≤ capacity) {k : ℕ}
    (hk : k < Dims.scaleCount) :
    ∃ s b', b.throughScale reference.image distorted.image k = .ok (s, b') ∧
      b'.arena.reference.dims = reference.dims.atScale k ∧
      b'.arena.distorted.dims = reference.dims.atScale k ∧
      reference.image.Excites b'.arena.reference.view ∧
      distorted.image.Excites b'.arena.distorted.view := by
  have hf := FilterBank.daubechies_cancels
  rw [← hfilters] at hf
  obtain ⟨p, hp⟩ : ∃ p, p = PicturePair.ofPlanes reference distorted hdims :=
    ⟨_, rfl⟩
  have hreference : p.referenceImage = reference.image := by rw [hp]; rfl
  have hdistorted : p.distortedImage = distorted.image := by
    rw [hp]
    exact PicturePair.distortedImage_ofPlanes hdims
  have hpdims : p.dims = reference.dims := congrArg Image.dims hreference
  obtain ⟨b', hrun, hscored⟩ :=
    b.throughScale_scored p (hpdims ▸ hw) (hpdims ▸ hfit) hk
  obtain ⟨hx, hy⟩ := hscored.showsBands (throughScale_handsOff hrun)
  have hsize := p.dims_half_atScale b.transform.filters k
  rw [hpdims] at hsize
  have hex := hx.excitedBy (p.referenceImage_excites hf k)
  have hey := hy.excitedBy (p.distortedImage_excites hf k)
  rw [hreference] at hrun hex
  rw [hdistorted] at hrun hey
  exact ⟨_, b', hrun, hx.dims_eq.trans hsize, hy.dims_eq.trans hsize, hex, hey⟩

/-- Two rows alike, of three columns. -/
def stripedPlane : Plane where
  samples := .bytes #[9, 200, 31, 9, 200, 31]
  dims := ⟨3, 2⟩
  stride := 3
  depth := 8
  nonempty := by decide
  width_le_stride := Nat.le_refl 3
  enough := Nat.le_refl 6

theorem throughScale_excites_striped : ∃ (b : Bench 3 ⟨2, 1⟩) (s : ScaleScore)
    (b' : Bench 3 ⟨2, 1⟩), b.transform.low = Vector.replicate 3 (-7) ∧
    b.throughScale stripedPlane.image stripedPlane.image 3 = .ok (s, b') ∧
    b'.arena.reference.dims = ⟨1, 1⟩ ∧
    ∀ i j, b'.arena.reference.view (.detail .horizontal) i j = 0 ∧
      b'.arena.reference.view (.detail .diagonal) i j = 0 := by
  obtain ⟨a, -⟩ : ∃ a, Arena.allocate ⟨2, 1⟩ = .ok a := ⟨_, rfl⟩
  obtain ⟨b, hfilters, hlow⟩ : ∃ b : Bench 3 ⟨2, 1⟩,
      b.transform.filters = FilterBank.daubechies ∧
      b.transform.low = Vector.replicate 3 (-7) :=
    ⟨⟨⟨_, Vector.replicate 3 (-7), Vector.replicate 3 3⟩, a⟩, rfl, rfl⟩
  have hsample : stripedPlane.sample.RowsEqual := by
    show ∀ (i i' : Fin stripedPlane.dims.height)
      (j : Fin stripedPlane.dims.width),
      (stripedPlane.sample i j : ℕ) = stripedPlane.sample i' j
    decide
  have hrows : stripedPlane.image.sample.RowsEqual :=
    hsample.map Int.ofNat
  obtain ⟨s, b', hrun, hsize, -, hexcites, -⟩ := b.throughScale_excites
    hfilters stripedPlane stripedPlane rfl (Nat.le_refl 3) (by decide)
    (show 3 < Dims.scaleCount by decide)
  exact ⟨b, s, b', hlow, hrun, hsize, hexcites.equal_rows hrows⟩

end Bench

end AdditiveDetail

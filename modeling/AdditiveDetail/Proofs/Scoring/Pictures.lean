/-
Scoring two pictures, without buffers.

# Two pictures of one size

A `PicturePair` is what a scale starts from: a reference and a distorted
picture of the same size, which is not empty. Everything that a scale
forms of them (their bands, the split detail, the threshold, the masked
detail, the two contributions) is a function of the pair, and so is the
pair that the next scale starts from: `next`.

# The buffers compute it

`level_scored` says that a scale succeeds in ANY buffers that are large
enough and leaves this function of its pictures in their windows;
`throughScale_scored` says it of every scale in turn, and `compute_eq` of
the whole. So a score depends on the pair alone; what the buffers held,
and which windows they had, does not enter.
-/
import AdditiveDetail.Proofs.Detail.Border
import AdditiveDetail.Proofs.Detail.Stages
import AdditiveDetail.Scoring.Arena

namespace AdditiveDetail

-- ================================================================== the pair

/-- A reference picture and a distorted one, of one size. -/
structure PicturePair where
  dims : Dims
  nonempty : dims.Nonempty
  reference : Raster Int dims
  distorted : Raster Int dims

namespace PicturePair

/-- The reference picture with its size. -/
def referenceImage (p : PicturePair) : Image := ⟨p.dims, p.reference⟩

/-- The distorted picture with its size. -/
def distortedImage (p : PicturePair) : Image := ⟨p.dims, p.distorted⟩

variable (p : PicturePair) (f : FilterBank) (scale : Fin Dims.scaleCount)

/-- The bands of the reference. -/
def referenceBands : Band → Raster Int16 p.dims.half :=
  p.reference.subBand p.nonempty f

/-- The bands of the distorted picture. -/
def distortedBands : Band → Raster Int16 p.dims.half :=
  p.distorted.subBand p.nonempty f

/-- The pair of the next scale: the two approximations. -/
def next : PicturePair where
  dims := p.dims.half
  nonempty := p.dims.half_nonempty
  reference i j := (p.referenceBands f .approximation i j).toInt
  distorted i j := (p.distortedBands f .approximation i j).toInt

/-- The pair that a scale starts from, counted from zero. -/
def atScale (p : PicturePair) (f : FilterBank) : Nat → PicturePair
  | 0 => p
  | k + 1 => (p.atScale f k).next f

-- ======================================================== what a scale forms

def referenceDetail : Detail p.dims.half :=
  fun o => p.referenceBands f (.detail o)

def distortedDetail : Detail p.dims.half :=
  fun o => p.distortedBands f (.detail o)

def restored : Detail p.dims.half :=
  (p.referenceDetail f).restored (p.distortedDetail f)

def impairment : Detail p.dims.half :=
  (p.referenceDetail f).impairment (p.distortedDetail f)

/-- The threshold that the visible impairment makes. -/
def threshold : Raster Int16 p.dims.half :=
  Masking.threshold ((p.impairment f).visibleAt scale) p.dims.half_nonempty

/-- The visible restored detail above the threshold. -/
def masked : Detail p.dims.half :=
  ((p.restored f).visibleAt scale).maskedBy (p.threshold f scale)

/-- What the scale contributes. -/
def scaleScore : ScaleScore where
  num := (p.masked f scale).pooled (Pooling.innerRegion p.dims.half)
  den := ((p.referenceDetail f).visibleAt scale).pooled
    (Pooling.innerRegion p.dims.half)

/-- What a scale contributes when scoring starts from the pair. -/
def contribution : ScaleScore := (p.atScale f scale).scaleScore f scale

/-- The score of the pair, with a given noise floor. -/
def score (limit : Binary64) : Score :=
  .ofScales limit (p.contribution f ⟨0, by decide⟩)
    (p.contribution f ⟨1, by decide⟩) (p.contribution f ⟨2, by decide⟩)
    (p.contribution f ⟨3, by decide⟩)

end PicturePair

-- ===================================================================== sizes

theorem Dims.le_trans {a b c : Dims} (hab : a ≤ b) (hbc : b ≤ c) : a ≤ c :=
  ⟨Nat.le_trans hab.1 hbc.1, Nat.le_trans hab.2 hbc.2⟩

namespace PicturePair

variable (p : PicturePair) (f : FilterBank)

/-- Later scales are not larger. -/
theorem dims_atScale_le (k : Nat) : (p.atScale f k).dims ≤ p.dims := by
  induction k with
  | zero => exact Dims.le_refl _
  | succ k ih => exact Dims.le_trans (Dims.half_le (p.atScale f k).nonempty) ih

/-- Scratch rows that take a picture take every scale of it. -/
theorem width_atScale_le {maxWidth : Nat} (hw : p.dims.width ≤ maxWidth)
    (k : Nat) : (p.atScale f k).dims.width ≤ maxWidth :=
  Nat.le_trans (Dims.width_le (p.dims_atScale_le f k)) hw

/-- The sizes of the bands of a scale. -/
theorem dims_half_atScale (p : PicturePair) (f : FilterBank) (k : Nat) :
    (p.atScale f k).dims.half = p.dims.atScale k := by
  induction k with
  | zero => rfl
  | succ k ih => exact congrArg Dims.half ih

end PicturePair

theorem ok_bind {ε α β : Type} (a : α) (f : α → Except ε β) :
    (Except.ok a >>= f) = f a := rfl

/-- Two steps succeed if the first does and the second does behind it. -/
theorem bind_eq_ok {ε α β : Type} {r : Except ε α} {f : α → Except ε β}
    {b : β} : (r >>= f) = .ok b ↔ ∃ a, r = .ok a ∧ f a = .ok b := by
  cases r <;> simp [bind, Except.bind]

/-- A step that may fault, beside one that has no result where it does. -/
theorem bind_eq_toOption_of_ok {ε α β : Type} {x : Option α} {y : Except ε α}
    {f : α → Option β} {g : α → Except ε β} (h : x = y.toOption)
    (hfg : ∀ a, y = .ok a → f a = (g a).toOption) :
    x >>= f = (y >>= g).toOption := by
  rw [h]
  cases y with
  | error e => rfl
  | ok a => exact hfg a rfl

theorem bind_eq_toOption {ε α β : Type} {x : Option α} {y : Except ε α}
    {f : α → Option β} {g : α → Except ε β} (h : x = y.toOption)
    (hfg : ∀ a, f a = (g a).toOption) : x >>= f = (y >>= g).toOption :=
  bind_eq_toOption_of_ok h fun a _ => hfg a

theorem Arena.picture_eq {capacity d : Dims} {g : Grid Int16 capacity}
    (h : d ≤ capacity) {x : Raster Int16 d} (hx : g.window d h = x) :
    Arena.picture g d = .ok ⟨d, fun i j => (x i j).toInt⟩ := by
  unfold Arena.picture
  rw [dif_pos h, hx]

namespace Bench

variable {capacity : Dims} {maxWidth : Nat}

-- ================================================================= one scale

/-- The buffers as a scale leaves them. -/
structure Scored (b : Bench maxWidth capacity) (p : PicturePair)
    (f : FilterBank) (scale : Fin Dims.scaleCount) : Prop where
  filters_eq : b.transform.filters = f
  fits : p.dims.half ≤ capacity
  reference : b.arena.reference.Shows (p.referenceDetail f)
  distorted : b.arena.distorted.Shows (p.distortedDetail f)
  restored : b.arena.restored.Shows (p.restored f)
  impairment : b.arena.impairment.Shows (p.impairment f)
  visibleReference : b.arena.visibleReference.Shows
    ((p.referenceDetail f).visibleAt scale)
  visibleRestored : b.arena.visibleRestored.Shows
    ((p.restored f).visibleAt scale)
  visibleImpairment : b.arena.visibleImpairment.Shows
    ((p.impairment f).visibleAt scale)
  threshold : b.arena.threshold.window p.dims.half fits = p.threshold f scale
  masked : b.arena.masked.Shows (p.masked f scale)
  referenceScale : b.arena.referenceScale.window p.dims.half fits
    = p.referenceBands f .approximation
  distortedScale : b.arena.distortedScale.window p.dims.half fits
    = p.distortedBands f .approximation

/-- One transform after the other. -/
theorem decompose_ok {b : Bench maxWidth capacity}
    {reference distorted : Image} {t₁ t₂ : Transform maxWidth}
    {x y : BandSet capacity}
    (h₁ : b.transform.forward reference b.arena.reference = .ok (t₁, x))
    (h₂ : t₁.forward distorted b.arena.distorted = .ok (t₂, y)) :
    b.decompose reference distorted = .ok {
      transform := t₂
      arena := { b.arena with reference := x, distorted := y } } := by
  unfold decompose
  simp only [h₁, h₂, ok_bind]
  rfl

theorem decompose_eq (b : Bench maxWidth capacity) (p : PicturePair)
    (hw : p.dims.width ≤ maxWidth) (hfit : p.dims.half ≤ capacity) :
    ∃ t : Transform maxWidth, t.filters = b.transform.filters ∧
      b.decompose p.referenceImage p.distortedImage = .ok {
        transform := t
        arena := { b.arena with
          reference := b.arena.reference.writeBands p.dims.half hfit
            (p.referenceBands b.transform.filters)
          distorted := b.arena.distorted.writeBands p.dims.half hfit
            (p.distortedBands b.transform.filters) } } := by
  obtain ⟨t₁, ht₁, h₁⟩ := b.transform.forward_eq p.referenceImage
    b.arena.reference p.nonempty hw hfit
  obtain ⟨t₂, ht₂, h₂⟩ := t₁.forward_eq p.distortedImage
    b.arena.distorted p.nonempty hw hfit
  rw [ht₁] at h₂
  exact ⟨t₂, ht₂.trans ht₁, decompose_ok h₁ h₂⟩

theorem level_scored (b : Bench maxWidth capacity) (p : PicturePair)
    (hw : p.dims.width ≤ maxWidth) (hfit : p.dims.half ≤ capacity)
    (scale : Fin Dims.scaleCount) :
    ∃ b', b.level scale p.referenceImage p.distortedImage
        = .ok (p.scaleScore b.transform.filters scale, b') ∧
      b'.Scored p b.transform.filters scale := by
  obtain ⟨t, ht, hdecompose⟩ := b.decompose_eq p hw hfit
  generalize b.transform.filters = f at *
  have hx : (b.arena.reference.writeBands p.dims.half hfit
      (p.referenceBands f)).Shows (p.referenceDetail f) :=
    BandSet.writeBands_shows ..
  have hy : (b.arena.distorted.writeBands p.dims.half hfit
      (p.distortedBands f)).Shows (p.distortedDetail f) :=
    BandSet.writeBands_shows ..
  obtain ⟨restored, impairment, hsplit, hr, ha⟩ := BandSet.decouple_shows
    b.arena.restored b.arena.impairment hx hy hfit hfit
  obtain ⟨visibleReference, hvx, hvxs⟩ :=
    BandSet.filterVisible_shows b.arena.visibleReference hx hfit scale
  obtain ⟨visibleRestored, hvr, hvrs⟩ :=
    BandSet.filterVisible_shows b.arena.visibleRestored hr hfit scale
  obtain ⟨visibleImpairment, hva, hvas⟩ :=
    BandSet.filterVisible_shows b.arena.visibleImpairment ha hfit scale
  obtain ⟨threshold, hthreshold, hts⟩ := b.arena.threshold.writeThreshold_window
    hvas p.dims.half_nonempty hfit
  obtain ⟨masked, hmask, hms⟩ :=
    BandSet.maskBy_shows b.arena.masked hvrs hfit hts hfit
  have hregion := Pooling.pooledRegion_eq p.dims.half
  have hnum := BandSet.contribution_eq hms hregion
  have hden := BandSet.contribution_eq hvxs hregion
  refine ⟨{
      transform := t
      arena := {
        referenceScale := b.arena.referenceScale.write p.dims.half hfit
          (p.referenceBands f .approximation)
        distortedScale := b.arena.distortedScale.write p.dims.half hfit
          (p.distortedBands f .approximation)
        reference := b.arena.reference.writeBands p.dims.half hfit
          (p.referenceBands f)
        distorted := b.arena.distorted.writeBands p.dims.half hfit
          (p.distortedBands f)
        restored, impairment, visibleReference, visibleRestored
        visibleImpairment, threshold, masked } }, ?_, ?_⟩
  · simp only [level, hdecompose, ok_bind, scoreScale, hsplit, hvx, hvr, hva,
      hthreshold, hmask, hnum, hden, pure, Except.pure, Arena.handOff,
      BandSet.dims_writeBands, if_true, BandSet.view_writeBands]
    rfl
  · exact {
      filters_eq := ht
      fits := hfit
      reference := hx
      distorted := hy
      restored := hr
      impairment := ha
      visibleReference := hvxs
      visibleRestored := hvrs
      visibleImpairment := hvas
      threshold := hts
      masked := hms
      referenceScale := Grid.window_write ..
      distortedScale := Grid.window_write .. }

-- ================================================================ all scales

/-- Scoring two pictures up to a scale: what the scale contributes, and the
buffers behind it. -/
def throughScale (b : Bench maxWidth capacity) (reference distorted : Image) :
    Nat → Except Fault (ScaleScore × Bench maxWidth capacity)
  | 0 => b.level 0 reference distorted
  | k + 1 => do
      let (_, b) ← b.throughScale reference distorted k
      b.nextLevel (k + 1)

/-- Scoring collects what the scales contribute. -/
theorem compute_eq_throughScale (b : Bench maxWidth capacity)
    (reference distorted : Image) (limit : Binary64) :
    b.compute reference distorted limit = do
      let (s₀, _) ← b.throughScale reference distorted 0
      let (s₁, _) ← b.throughScale reference distorted 1
      let (s₂, _) ← b.throughScale reference distorted 2
      let (s₃, b) ← b.throughScale reference distorted 3
      return (Score.ofScales limit s₀ s₁ s₂ s₃, b) := by
  unfold compute throughScale throughScale throughScale throughScale
  cases b.level 0 reference distorted with
  | error e => rfl
  | ok x₀ =>
      simp only [ok_bind]
      cases x₀.2.nextLevel 1 with
      | error e => rfl
      | ok x₁ =>
          simp only [ok_bind]
          cases x₁.2.nextLevel 2 with
          | error e => rfl
          | ok x₂ => rfl

/-- Behind a scale the buffers hold the pictures of the next one. -/
theorem nextLevel_eq {b : Bench maxWidth capacity} {p : PicturePair}
    {f : FilterBank} {scale : Fin Dims.scaleCount} (hb : b.Scored p f scale)
    (k : Nat) :
    b.nextLevel k = b.level k (p.next f).referenceImage
      (p.next f).distortedImage := by
  unfold nextLevel
  simp only [hb.distorted.dims_eq, ok_bind,
    Arena.picture_eq hb.fits hb.referenceScale,
    Arena.picture_eq hb.fits hb.distortedScale]
  rfl

/-- The next scale succeeds in the same buffers, since its pictures are not
larger. -/
theorem Scored.nextLevel_scored {b : Bench maxWidth capacity}
    {p : PicturePair} {f : FilterBank} {scale : Fin Dims.scaleCount}
    (hb : b.Scored p f scale) (hw : p.dims.width ≤ maxWidth)
    (next : Fin Dims.scaleCount) :
    ∃ b', b.nextLevel next = .ok ((p.next f).scaleScore f next, b') ∧
      b'.Scored (p.next f) f next := by
  have hw' : (p.next f).dims.width ≤ maxWidth :=
    Nat.le_trans (Dims.width_le (Dims.half_le p.nonempty)) hw
  have hfit : (p.next f).dims.half ≤ capacity :=
    Dims.le_trans (Dims.half_le (Dims.half_nonempty _)) hb.fits
  have hlevel := b.level_scored (p.next f) hw' hfit next
  rw [hb.filters_eq] at hlevel
  rw [nextLevel_eq hb]
  exact hlevel

/-- Every scale succeeds in buffers that are large enough, and contributes
what it does without buffers. -/
theorem throughScale_scored (b : Bench maxWidth capacity) (p : PicturePair)
    (hw : p.dims.width ≤ maxWidth) (hfit : p.dims.half ≤ capacity) {k : Nat}
    (hk : k < Dims.scaleCount) :
    ∃ b', b.throughScale p.referenceImage p.distortedImage k
        = .ok (p.contribution b.transform.filters ⟨k, hk⟩, b') ∧
      b'.Scored (p.atScale b.transform.filters k) b.transform.filters
        ⟨k, hk⟩ := by
  induction k with
  | zero => exact b.level_scored p hw hfit ⟨0, hk⟩
  | succ k ih =>
      obtain ⟨b₁, h₁, hs₁⟩ := ih (Nat.lt_of_succ_lt hk)
      unfold throughScale
      rw [h₁, ok_bind]
      exact hs₁.nextLevel_scored (p.width_atScale_le _ hw k) ⟨k + 1, hk⟩

/-- Scoring two pictures succeeds in any buffers that are large enough, and
its result is the score of the pair. -/
theorem compute_eq (b : Bench maxWidth capacity) (p : PicturePair)
    (hw : p.dims.width ≤ maxWidth) (hfit : p.dims.half ≤ capacity)
    (limit : Binary64) :
    ∃ b', b.compute p.referenceImage p.distortedImage limit
        = .ok (p.score b.transform.filters limit, b') ∧
      b'.transform.filters = b.transform.filters := by
  have hscored {k : Nat} (hk : k < Dims.scaleCount) :=
    b.throughScale_scored p hw hfit hk
  obtain ⟨b₀, h₀, -⟩ := hscored (show 0 < 4 by decide)
  obtain ⟨b₁, h₁, -⟩ := hscored (show 1 < 4 by decide)
  obtain ⟨b₂, h₂, -⟩ := hscored (show 2 < 4 by decide)
  obtain ⟨b₃, h₃, hs₃⟩ := hscored (show 3 < 4 by decide)
  refine ⟨b₃, ?_, hs₃.filters_eq⟩
  rw [compute_eq_throughScale, h₀, h₁, h₂, h₃]
  rfl

end Bench

end AdditiveDetail

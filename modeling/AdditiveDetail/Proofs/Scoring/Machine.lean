/-
Scoring on a machine that checks what it does.

# One machine

At each scale scoring transforms two pictures, scores the bands that come of
them, and copies the approximations for the next scale. A machine does each
of these in a way of its own (`Stages`) and stops where one of them stops;
that they follow each other, and over four scales, is the same for all
machines (`computeBy`).

# It does not stop

Where the passes of the transforms stop in none of the eight pictures, and
the other stages do what scoring does, the run on the machine has the result
of the run, buffers included (`computeBy_eq`). The pictures are those of
`PicturePair.atScale`: what a scale starts from does not depend on the
buffers that it went through.
-/
import AdditiveDetail.Proofs.Scoring.Pictures
import AdditiveDetail.Proofs.Wavelet.Machine

namespace AdditiveDetail

theorem Transform.filters_of_forward {maxWidth : Nat} {capacity : Dims}
    {t t' : Transform maxWidth} {src : Image} {dst out : BandSet capacity}
    (h : t.forward src dst = .ok (t', out)) : t'.filters = t.filters := by
  unfold forward at h
  split at h
  · split at h
    · split at h
      · cases h
        rfl
      · cases h
    · cases h
  · cases h

namespace Bench

variable {capacity : Dims} {maxWidth : Nat}

-- ================================================================ the machine

/-- What a machine does at a scale: the passes of its transforms, the stages
that score a scale, and the copies for the next one. -/
structure Stages (maxWidth : Nat) (capacity : Dims) where
  passes : (scale : Nat) → Transform.Passes
  scoreScale : Bench maxWidth capacity → (scale : Nat) →
    Option (ScaleScore × Bench maxWidth capacity)
  handOff : Arena capacity → Option (Arena capacity)

/-- `decompose` on a machine. -/
def decomposeBy (m : Stages maxWidth capacity) (b : Bench maxWidth capacity)
    (scale : Nat) (reference distorted : Image) :
    Option (Bench maxWidth capacity) := do
  let (transform, referenceBands) ←
    b.transform.forwardBy (m.passes scale) reference b.arena.reference
  let (transform, distortedBands) ←
    transform.forwardBy (m.passes scale) distorted b.arena.distorted
  return {
    transform
    arena := { b.arena with
      reference := referenceBands
      distorted := distortedBands } }

/-- `level` on a machine. -/
def levelBy (m : Stages maxWidth capacity) (b : Bench maxWidth capacity)
    (scale : Nat) (reference distorted : Image) :
    Option (ScaleScore × Bench maxWidth capacity) := do
  let b ← b.decomposeBy m scale reference distorted
  let (score, b) ← m.scoreScale b scale
  let arena ← m.handOff b.arena
  return (score, { b with arena })

/-- `nextLevel` on a machine. -/
def nextLevelBy (m : Stages maxWidth capacity) (b : Bench maxWidth capacity)
    (scale : Nat) : Option (ScaleScore × Bench maxWidth capacity) := do
  let d := b.arena.distorted.dims
  let reference ← (Arena.picture b.arena.referenceScale d).toOption
  let distorted ← (Arena.picture b.arena.distortedScale d).toOption
  b.levelBy m scale reference distorted

/-- `compute` on a machine. -/
def computeBy (m : Stages maxWidth capacity) (b : Bench maxWidth capacity)
    (reference distorted : Image) (limit : Binary64) :
    Option (Score × Bench maxWidth capacity) := do
  let (s₀, b) ← b.levelBy m 0 reference distorted
  let (s₁, b) ← b.nextLevelBy m 1
  let (s₂, b) ← b.nextLevelBy m 2
  let (s₃, b) ← b.nextLevelBy m 3
  return (Score.ofScales limit s₀ s₁ s₂ s₃, b)

-- ========================================================== it does not stop

/-- The stages stop nowhere in the pictures of the scales. -/
structure Stages.Run (m : Stages maxWidth capacity) (p : PicturePair)
    (f : FilterBank) : Prop where
  reference : ∀ k < Dims.scaleCount,
    (m.passes k).Run f (p.atScale f k).referenceImage
  distorted : ∀ k < Dims.scaleCount,
    (m.passes k).Run f (p.atScale f k).distortedImage
  scoreScale : ∀ b scale, m.scoreScale b scale = (b.scoreScale scale).toOption
  handOff : ∀ a, m.handOff a = a.handOff.toOption

variable {m : Stages maxWidth capacity} {p : PicturePair} {f : FilterBank}

theorem decomposeBy_eq (b : Bench maxWidth capacity) {scale : Nat}
    {reference distorted : Image}
    (hr : (m.passes scale).Run b.transform.filters reference)
    (hd : (m.passes scale).Run b.transform.filters distorted) :
    b.decomposeBy m scale reference distorted
      = (b.decompose reference distorted).toOption := by
  refine bind_eq_toOption_of_ok (b.transform.forwardBy_eq _ _ hr) ?_
  -- the second transform has the filters of the first
  rintro ⟨t, referenceBands⟩ hforward
  rw [← Transform.filters_of_forward hforward] at hd
  exact bind_eq_toOption (t.forwardBy_eq _ _ hd) fun _ => rfl

theorem levelBy_eq (hrun : m.Run p f) (b : Bench maxWidth capacity)
    (hfilters : b.transform.filters = f) {k : Nat}
    (hk : k < Dims.scaleCount) :
    b.levelBy m k (p.atScale f k).referenceImage
        (p.atScale f k).distortedImage
      = (b.level k (p.atScale f k).referenceImage
          (p.atScale f k).distortedImage).toOption := by
  subst hfilters
  refine bind_eq_toOption
    (b.decomposeBy_eq (hrun.reference k hk) (hrun.distorted k hk)) ?_
  intro b₁
  refine bind_eq_toOption (hrun.scoreScale b₁ k) ?_
  rintro ⟨score, b₂⟩
  exact bind_eq_toOption (hrun.handOff b₂.arena) fun arena => rfl

/-- The next scale starts from the pictures that a scale has left. -/
theorem Scored.nextLevelBy_eq {b : Bench maxWidth capacity} {k : Nat}
    {scale : Fin Dims.scaleCount} (hs : b.Scored (p.atScale f k) f scale)
    (hrun : m.Run p f) (hk : k + 1 < Dims.scaleCount) :
    b.nextLevelBy m (k + 1) = (b.nextLevel (k + 1)).toOption := by
  have hlevel := levelBy_eq hrun b hs.filters_eq hk
  rw [nextLevel_eq hs]
  refine Eq.trans ?_ hlevel
  unfold nextLevelBy
  simp only [hs.distorted.dims_eq, Arena.picture_eq hs.fits hs.referenceScale,
    Arena.picture_eq hs.fits hs.distortedScale]
  rfl

/-- A machine whose stages stop nowhere has the result of the run. -/
theorem computeBy_eq (b : Bench maxWidth capacity)
    (hw : p.dims.width ≤ maxWidth) (hfit : p.dims.half ≤ capacity)
    (hrun : m.Run p b.transform.filters) (limit : Binary64) :
    b.computeBy m p.referenceImage p.distortedImage limit
      = (b.compute p.referenceImage p.distortedImage limit).toOption := by
  have hwidth := p.width_atScale_le b.transform.filters hw
  obtain ⟨b₀, h₀, hs₀⟩ := b.level_scored p hw hfit ⟨0, by decide⟩
  obtain ⟨b₁, h₁, hs₁⟩ := hs₀.nextLevel_scored (hwidth 0) ⟨1, by decide⟩
  obtain ⟨b₂, h₂, hs₂⟩ := hs₁.nextLevel_scored (hwidth 1) ⟨2, by decide⟩
  have hlevel := levelBy_eq hrun b rfl (show 0 < 4 by decide)
  have hnext₁ := hs₀.nextLevelBy_eq (k := 0) hrun (by decide)
  have hnext₂ := hs₁.nextLevelBy_eq (k := 1) hrun (by decide)
  have hnext₃ := hs₂.nextLevelBy_eq (k := 2) hrun (by decide)
  refine bind_eq_toOption_of_ok hlevel fun x₀ hx₀ => ?_
  obtain rfl := Except.ok.inj (h₀.symm.trans hx₀)
  refine bind_eq_toOption_of_ok hnext₁ fun x₁ hx₁ => ?_
  obtain rfl := Except.ok.inj (h₁.symm.trans hx₁)
  refine bind_eq_toOption_of_ok hnext₂ fun x₂ hx₂ => ?_
  obtain rfl := Except.ok.inj (h₂.symm.trans hx₂)
  exact bind_eq_toOption hnext₃ fun _ => rfl

end Bench

end AdditiveDetail

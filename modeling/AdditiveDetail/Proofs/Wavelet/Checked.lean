/-
The transform on a machine that checks its arithmetic.

# The checked machine

`forwardChecked` runs the loops of `forwardBy`, with `passChecked` for each
pass: it has no result as soon as a register of 32 bits does not hold a
product or a sum, or sixteen bits do not hold a sample. Every sample of a
scratch row is checked; of the bands, those that are to be `lossless`.

# It does not stop

A level has headroom over a picture whose samples lie within some bounds
when each of its six passes has: the column pass of both channels over
the bounds of the picture, and the row pass of each band over the bounds
that the column pass made of them. The bounds are all that is needed. No
pass depends on how large the picture is or where its edges are, since a
reflected index reads another sample of the same picture.
-/
import AdditiveDetail.Proofs.Wavelet.Bounds
import AdditiveDetail.Proofs.Wavelet.Machine

namespace AdditiveDetail

-- ================================================================ the bounds

namespace Bounds

/-- Bounds of a scratch row. -/
def scratch (b : Bounds) (f : FilterBank) (c : Channel) : Bounds :=
  b.filtered (f.channel c)

/-- Bounds of a band. -/
def band (b : Bounds) (f : FilterBank) (band : Band) : Bounds :=
  (b.scratch f band.columns).filtered (f.channel band.rows)

/-- Every pass of a level has headroom, over pictures within the bounds. -/
structure LevelHeadroom (b : Bounds) (f : FilterBank)
    (lossless : Band → Bool) : Prop where
  columns : ∀ c, b.Headroom (f.channel c) true
  rows : ∀ band, (b.scratch f band.columns).Headroom (f.channel band.rows)
    (lossless band)

variable {b : Bounds} {f : FilterBank} {lossless : Band → Bool} {d : Dims}
  {x : Raster Int d}

/-- The six passes of a level, one after the other. -/
theorem levelHeadroom_iff : b.LevelHeadroom f lossless ↔
    (b.Headroom f.low true ∧ b.Headroom f.high true) ∧
      (b.filtered f.low).Headroom f.low (lossless .approximation) ∧
      (b.filtered f.high).Headroom f.low (lossless (.detail .horizontal)) ∧
      (b.filtered f.low).Headroom f.high (lossless (.detail .vertical)) ∧
      (b.filtered f.high).Headroom f.high (lossless (.detail .diagonal)) := by
  constructor
  · intro h
    exact ⟨⟨h.columns .low, h.columns .high⟩, h.rows .approximation,
      h.rows (.detail .horizontal), h.rows (.detail .vertical),
      h.rows (.detail .diagonal)⟩
  · rintro ⟨⟨hlow, hhigh⟩, ha, hh, hv, hd⟩
    refine ⟨fun c => ?_, fun band => ?_⟩
    · cases c with
      | low => exact hlow
      | high => exact hhigh
    · match band with
      | .approximation => exact ha
      | .detail .horizontal => exact hh
      | .detail .vertical => exact hv
      | .detail .diagonal => exact hd

instance : Decidable (b.LevelHeadroom f lossless) :=
  decidable_of_iff _ levelHeadroom_iff.symm

theorem LevelHeadroom.columnFiltered_mem (hb : b.LevelHeadroom f lossless)
    (h : d.Nonempty) (hx : ∀ i j, x i j ∈ b) (c : Channel) (i : Nat)
    (j : Fin d.width) :
    (x.columnFiltered h (f.channel c) i j).toInt ∈ b.scratch f c :=
  (hb.columns c).pass_mem (fun r => hx r j) _

/-- A lossless band stays within its bounds. -/
theorem LevelHeadroom.subBand_mem (hb : b.LevelHeadroom f lossless)
    (h : d.Nonempty) (hx : ∀ i j, x i j ∈ b) {band : Band}
    (hband : lossless band) (i : Fin d.half.height) (j : Fin d.half.width) :
    (x.subBand h f band i j).toInt ∈ b.band f band := by
  have hrow := hb.rows band
  rw [hband] at hrow
  exact hrow.pass_mem (fun k => hb.columnFiltered_mem h hx _ i k) _

end Bounds

-- =============================================================== the machine

namespace Transform

variable {maxWidth : Nat} {capacity : Dims} {b : Bounds}
  {lossless : Band → Bool}

/-- Passes that check their arithmetic. -/
def Passes.checked (lossless : Band → Bool) : Passes where
  column := passChecked true
  row band := passChecked (lossless band)

/-- `forward` with checks; without a result also where `forward` faults. -/
def forwardChecked (t : Transform maxWidth) (lossless : Band → Bool)
    (src : Image) (dst : BandSet capacity) :
    Option (Transform maxWidth × BandSet capacity) :=
  t.forwardBy (.checked lossless) src dst

/-- Over a picture within bounds that leave headroom no check fails. -/
theorem Passes.checked_run {f : FilterBank} {src : Image}
    (hb : b.LevelHeadroom f lossless) (hx : ∀ i j, src.sample i j ∈ b) :
    (Passes.checked lossless).Run f src where
  columns _ c _ j := (hb.columns c).passChecked_eq (fun r => hx r j) _
  rows h band i _ := (hb.rows band).passChecked_eq
    (fun k => hb.columnFiltered_mem h hx band.columns i k) _

/-- There the checked machine does what the transform does. -/
theorem forwardChecked_eq (t : Transform maxWidth) (src : Image)
    (dst : BandSet capacity) (hb : b.LevelHeadroom t.filters lossless)
    (hx : ∀ i j, src.sample i j ∈ b) :
    t.forwardChecked lossless src dst = (t.forward src dst).toOption :=
  t.forwardBy_eq src dst (Passes.checked_run hb hx)

end Transform

end AdditiveDetail

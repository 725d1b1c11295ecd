/-
The transform on a machine that takes nothing for granted.

# The strict machine

`forwardStrict` looks up every index before it reads or writes a cell, and
it forms every sum in a register of 32 bits, product by product. It stops at
the first index without a cell and at the first product or sum that the
register does not hold. What is kept of a sum is narrowed to sixteen bits
without a check: narrowing drops bits and goes on.

# Where it ends

It needs three things of its source: to be no wider than the scratch rows, to
have a half that fits the window, and to have samples. With samples nothing
stops it but a sum, and where all of them fit it does what `forward` does.
-/
import AdditiveDetail.Proofs.Wavelet.Bounds
import AdditiveDetail.Proofs.Wavelet.Machine

namespace AdditiveDetail

-- ======================================================== sums in a register

/-- A register holds the sums of both passes over a picture, with every
product and every sum on the way. -/
structure Image.SumsFit (src : Image) (f : FilterBank) : Prop where
  columns : ∀ (h : src.dims.Nonempty) (c : Channel)
    (i : Fin src.dims.half.height) (j : Fin src.dims.width),
    ((f.channel c).accumulated
      ((reach i h.height_pos).map fun r => src.sample r j)).isSome
  rows : ∀ (h : src.dims.Nonempty) (band : Band)
    (i : Fin src.dims.half.height) (j : Fin src.dims.half.width),
    ((f.channel band.rows).accumulated
      ((reach j h.width_pos).map fun k =>
        (src.sample.columnFiltered h (f.channel band.columns) i k).toInt)).isSome

namespace Transform

/-- A pass whose sum fits the register does not stop. -/
theorem passChecked_eq_pass {t : Taps} {x : Quad Int}
    (h : (t.accumulated x).isSome) : passChecked false t x = some (pass t x) := by
  obtain ⟨sum, hsum⟩ := Option.isSome_iff_exists.1 h
  have hpass : passChecked false t x = some (narrow (scaleDown sum)) := by
    unfold passChecked
    rw [hsum]
    rfl
  rw [hpass, (passChecked_sound hpass).1]

end Transform

/-- Samples that leave room in the register for both passes: those of the
picture, and all samples of sixteen bits. -/
theorem Image.sumsFit_of_mem {src : Image} {f : FilterBank} {b : Bounds}
    (hx : ∀ i j, src.sample i j ∈ b)
    (hcolumns : ∀ c, b.Headroom (f.channel c) false)
    (hrows : ∀ c, Bounds.sample.Headroom (f.channel c) false) :
    src.SumsFit f where
  columns h c i j := by
    have hread (r : Fin src.dims.height) : src.sample r j ∈ b := hx r j
    obtain ⟨sum, hsum, -⟩ := (hcolumns c).accumulated_eq
      (x := (reach i h.height_pos).map fun r => src.sample r j)
      (hread _) (hread _) (hread _) (hread _)
    rw [hsum]
    rfl
  rows h band i j := by
    have hword (x : Int16) : x.toInt ∈ Bounds.sample :=
      ⟨x.le_toInt, Int.le_sub_one_of_lt x.toInt_lt⟩
    obtain ⟨sum, hsum, -⟩ := (hrows band.rows).accumulated_eq
      (x := (reach j h.width_pos).map fun k =>
        (src.sample.columnFiltered h (f.channel band.columns) i k).toInt)
      (hword _) (hword _) (hword _) (hword _)
    rw [hsum]
    rfl

/-- The filters in use leave room for all samples of sixteen bits. -/
theorem Image.sumsFit_daubechies {src : Image}
    (hx : ∀ i j, src.sample i j ∈ Bounds.sample) :
    src.SumsFit FilterBank.daubechies := by
  have hroom : ∀ c, Bounds.sample.Headroom
      (FilterBank.daubechies.channel c) false := by
    rw [FilterBank.daubechies_eq]
    intro c
    cases c <;> decide
  exact sumsFit_of_mem hx hroom hroom

namespace Transform

variable {maxWidth : Nat} {capacity : Dims}

-- ======================================================== the strict machine

/-- Passes that form their sums in registers. -/
def Passes.strict : Passes where
  column := passChecked false
  row _ := passChecked false

/-- `forward` with look-ups and registers. -/
def forwardStrict (t : Transform maxWidth) (src : Image)
    (dst : BandSet capacity) :
    Option (Transform maxWidth × BandSet capacity) :=
  t.forwardBy .strict src dst

theorem Passes.strict_run {f : FilterBank} {src : Image}
    (hsums : src.SumsFit f) : Passes.strict.Run f src where
  columns h c i j := passChecked_eq_pass (hsums.columns h c i j)
  rows h band i j := passChecked_eq_pass (hsums.rows h band i j)

/-- Where the sums fit, the strict machine does what the transform does, be
there samples or not. -/
theorem forwardStrict_eq_toOption (t : Transform maxWidth) (src : Image)
    (dst : BandSet capacity) (hsums : src.SumsFit t.filters) :
    t.forwardStrict src dst = (t.forward src dst).toOption :=
  t.forwardBy_eq src dst (Passes.strict_run hsums)

end Transform

end AdditiveDetail

/-
Pooling a band into one number: the cube root of the sum of cubes over
the part of the band that lies inside a margin, and a term for the area
of that part. Both are rounded up to whole numbers.

The margin is a share of an axis less one half, with the fraction
dropped. It is computed in double precision and read as a word of 64
bits, so a margin below zero is a very large one.
-/
import AdditiveDetail.Band
import AdditiveDetail.Binary.Arithmetic
import AdditiveDetail.Binary.Integral
import AdditiveDetail.Binary.Root

namespace AdditiveDetail

-- one power on naturals, whatever else is imported
attribute [local instance(high)] instPowNat

/-- The part of a band that counts: rows from `top` to before `bottom`,
columns from `left` to before `right`. -/
structure Region where
  top : Nat
  bottom : Nat
  left : Nat
  right : Nat
  deriving DecidableEq

/-- Number of samples. -/
def Region.area (r : Region) : Nat := (r.bottom - r.top) * (r.right - r.left)

namespace Pooling

/-- Share of each edge that is left out. -/
def borderFactor : Binary64 := .ofDecimal false 1 (-1)

/-- Samples left out on each side of an axis. -/
def border (length : Nat) (factor : Binary64) : Nat :=
  let half : Binary64 := .ofDecimal false 5 (-1)
  let margin : Binary64 := .ofNat length * factor - half
  (margin.toInt (-2 ^ (63 : Nat)) (2 ^ (63 : Nat) - 1)
    % 2 ^ (64 : Nat)).toNat

/-- What the margins leave of a picture. A margin that exceeds its axis is
a fault. -/
def scoredRegion (d : Dims) (factor : Binary64) : Except Fault Region :=
  let left := border d.width factor
  let top := border d.height factor
  if top ≤ d.height ∧ left ≤ d.width then
    .ok {
      top
      bottom := d.height - top
      left
      right := d.width - left }
  else
    .error .outOfBounds

/-- The cube of the magnitude of a sample. -/
@[inline]
def cubed (x : Int16) : Nat :=
  let n := x.toInt.natAbs
  n * n * n

/-- The sum of the cubes of the magnitudes in a region. Rows without
samples are not walked. -/
def cubeSum {d : Dims} (band : Raster Int16 d) (r : Region) : Nat :=
  if d.width = 0 then 0
  else
    Fin.foldl d.height (fun sum i =>
      if r.top ≤ i.val ∧ i.val < r.bottom then
        Fin.foldl d.width (fun sum j =>
          if r.left ≤ j.val ∧ j.val < r.right then
            sum + cubed (band i j)
          else sum) sum
      else sum) 0

/-- The region that is pooled. One that ends in front of its start is a
fault. -/
def pooledRegion (d : Dims) (factor : Binary64) : Except Fault Region := do
  let r ← scoredRegion d factor
  if r.bottom < r.top ∨ r.right < r.left then throw .outOfBounds
  return r

/-- The cube root of a cube sum, rounded up. It rests on `Binary.cbrt` being
correctly rounded: a root that overshoots at the cube of a whole number would
be rounded up to the next one. -/
def sumTerm (sum : Nat) : Binary64 := (Binary.ofNat sum).cbrt.ceil

/-- The cube root of a thirty-second of an area, rounded up, on the same
assumption about the root as `sumTerm`. -/
def areaTerm (area : Nat) : Binary64 :=
  (Binary.ofNat area / .ofNat 32).cbrt.ceil

/-- The contribution of one band: a term for its cube sum and one for the
area of the region. -/
def cubicNorm {d : Dims} (band : Raster Int16 d) (factor : Binary64) :
    Except Fault Binary64 := do
  let r ← pooledRegion d factor
  return sumTerm (cubeSum band r) + areaTerm r.area

end Pooling

/-- The contribution of the three detail bands. They have the region in
common, and with it the term for its area. -/
def BandSet.contribution {c : Dims} (b : BandSet c) (factor : Binary64) :
    Except Fault Binary64 := do
  let r ← Pooling.pooledRegion b.dims factor
  let area := Pooling.areaTerm r.area
  return Binary.sum (Orientation.all.map fun o =>
    Pooling.sumTerm (Pooling.cubeSum (b.detail o) r) + area)

end AdditiveDetail

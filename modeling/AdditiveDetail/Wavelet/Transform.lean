/-
One level of the separable wavelet transform.

# The two passes

Output row `i` is made from source rows `2i - 1` to `2i + 2`. The column
pass filters these down each column, low-pass and high-pass, into two
scratch rows; the row pass filters columns `2j - 1` to `2j + 2` of each
scratch row into cell `(i, j)` of two bands. Every pass drops the
fraction bits and keeps sixteen bits, and indices past an edge are
reflected.

The scratch rows are as wide as the widest source and are never cleared.
A narrower source uses their first cells only; `rowPass` reflects at the
width of the source, so it reads no cell that the column pass of the same
row has not just written.
-/
import AdditiveDetail.Allocation
import AdditiveDetail.Wavelet.Filter
import AdditiveDetail.Wavelet.Reflection

namespace AdditiveDetail

/-- The samples `2i - 1` to `2i + 2` of a continued row of `n` samples. -/
@[inline]
def reach (i : Nat) {n : Nat} (h : 0 < n) : Quad (Fin n) where
  x0 := reflectIn (2 * i - 1) h
  x1 := reflectIn (2 * i) h
  x2 := reflectIn (2 * i + 1) h
  x3 := reflectIn (2 * i + 2) h

/-- Filters and scratch rows for sources of up to `maxWidth` columns. -/
structure Transform (maxWidth : Nat) where
  filters : FilterBank
  low : Vector Int16 maxWidth
  high : Vector Int16 maxWidth

namespace Transform

variable {maxWidth : Nat} {capacity : Dims}

/-- A transform with scratch rows of zeros. -/
def allocate (filters : FilterBank) (maxWidth : Nat) :
    Except Error (Transform maxWidth) := do
  Allocation.checkRow maxWidth
  return {
    filters
    low := Vector.replicate maxWidth 0
    high := Vector.replicate maxWidth 0 }

/-- One pass of one filter: the response, scaled down and narrowed. -/
@[inline]
def pass (t : Taps) (x : Quad Int) : Int16 :=
  narrow (scaleDown (t.response x))

/-- The scratch rows and the buffers of the destination while the output
rows are made one after the other. -/
structure Sweep (maxWidth : Nat) (capacity : Dims) where
  low : Vector Int16 maxWidth
  high : Vector Int16 maxWidth
  approximation : Grid Int16 capacity
  details : Details (Grid Int16 capacity)

/-- Fill the scratch rows for output row `i`: column `j` of them from the
samples of the source that the row reaches in that column. -/
def Sweep.columnPass (s : Sweep maxWidth capacity) (filters : FilterBank)
    (src : Image) (h : src.dims.Nonempty) (hw : src.dims.width ≤ maxWidth)
    (i : Nat) : Sweep maxWidth capacity :=
  let rows := reach i h.height_pos
  Fin.foldl src.dims.width (fun s j =>
    let x := rows.map fun r => src.sample r j
    let k := j.castLE hw
    { s with
      low := s.low.set k (pass filters.low x) k.isLt
      high := s.high.set k (pass filters.high x) k.isLt }) s

/-- Make output row `i`, of `n` cells, from the first `w` cells of the
scratch rows. -/
def Sweep.rowPass (s : Sweep maxWidth capacity) (filters : FilterBank)
    {w : Nat} (hw : w ≤ maxWidth) (hpos : 0 < w) (i : Fin capacity.height)
    (n : Nat) (hn : n ≤ capacity.width) : Sweep maxWidth capacity :=
  Fin.foldl n (fun s j =>
    let columns := (reach j hpos).map (Fin.castLE hw)
    let low := columns.map fun k => s.low[k].toInt
    let high := columns.map fun k => s.high[k].toInt
    let j := j.castLE hn
    { s with
      approximation := s.approximation.set i j (pass filters.low low)
      details := {
        vertical := s.details.vertical.set i j (pass filters.high low)
        horizontal := s.details.horizontal.set i j (pass filters.low high)
        diagonal := s.details.diagonal.set i j (pass filters.high high) } }) s

/-- Make all output rows one after the other. The scratch rows are left as
the last one needed them. -/
def sweep (t : Transform maxWidth) (src : Image) (dst : BandSet capacity)
    (h : src.dims.Nonempty) (hw : src.dims.width ≤ maxWidth)
    (hfit : src.dims.half ≤ capacity) :
    Transform maxWidth × BandSet capacity :=
  let out := src.dims.half
  let start : Sweep maxWidth capacity := {
    low := t.low
    high := t.high
    approximation := dst.approximation
    details := dst.details }
  let swept := Fin.foldl out.height (fun s i =>
    (s.columnPass t.filters src h hw i).rowPass t.filters hw
      h.width_pos (i.castLE hfit.2) out.width hfit.1) start
  ({ t with low := swept.low, high := swept.high },
    { dims := out
      fits := hfit
      approximation := swept.approximation
      details := swept.details })

/-- Decompose a source into the window of half its size.

Faults, in this order: a source wider than the scratch rows, a window
that does not fit, a source without samples. -/
@[inline]
def forward (t : Transform maxWidth) (src : Image)
    (dst : BandSet capacity) :
    Except Fault (Transform maxWidth × BandSet capacity) :=
  if hw : src.dims.width ≤ maxWidth then
    if hfit : src.dims.half ≤ capacity then
      if h : src.dims.Nonempty then .ok (t.sweep src dst h hw hfit)
      else .error .outOfBounds
    else
      .error (.windowTooLarge src.dims.half capacity)
  else
    .error (.inputTooWide src.dims.width maxWidth)

end Transform

end AdditiveDetail

/-
The sub-bands of one decomposition level: an approximation and three
detail bands, stored together.

# The window

A `BandSet` is allocated once, for the largest scale, and used for all.
Its `dims` select the window that the current scale works in. Moving the
window changes no cell, so what an earlier scale or frame left outside
the current window, or under a window not yet written, is still there:
it is the caller who writes a window before reading it.
-/
import AdditiveDetail.Raster
import AdditiveDetail.Fault

namespace AdditiveDetail

/-- Direction of the detail that a band holds. -/
inductive Orientation where
  /-- High-pass down the columns, low-pass along the rows. -/
  | horizontal
  /-- Low-pass down the columns, high-pass along the rows. -/
  | vertical
  /-- High-pass in both directions. -/
  | diagonal
  deriving DecidableEq, Inhabited

namespace Orientation

/-- All orientations, in the order in which they are summed. -/
def all : List Orientation := [.horizontal, .vertical, .diagonal]

def name : Orientation → String
  | .horizontal => "Horizontal"
  | .vertical => "Vertical"
  | .diagonal => "Diagonal"

end Orientation

/-- One value per orientation. -/
structure Details (α : Type) where
  horizontal : α
  vertical : α
  diagonal : α
  deriving DecidableEq, Inhabited

namespace Details

variable {α β : Type}

@[inline]
def get (x : Details α) : Orientation → α
  | .horizontal => x.horizontal
  | .vertical => x.vertical
  | .diagonal => x.diagonal

@[inline]
def ofFn (f : Orientation → α) : Details α where
  horizontal := f .horizontal
  vertical := f .vertical
  diagonal := f .diagonal

@[simp]
theorem get_ofFn (f : Orientation → α) (o : Orientation) :
    (ofFn f).get o = f o := by
  cases o <;> rfl

@[ext]
theorem ext {x y : Details α} (h : ∀ o, x.get o = y.get o) : x = y := by
  obtain ⟨h₁, v₁, d₁⟩ := x
  obtain ⟨h₂, v₂, d₂⟩ := y
  have hh := h .horizontal
  have hv := h .vertical
  have hd := h .diagonal
  simp only [get] at hh hv hd
  rw [hh, hv, hd]

/-- Change the value of one orientation. -/
def modify (x : Details α) (o : Orientation) (f : α → α) : Details α :=
  match o with
  | .horizontal => { x with horizontal := f x.horizontal }
  | .vertical => { x with vertical := f x.vertical }
  | .diagonal => { x with diagonal := f x.diagonal }

theorem get_modify (x : Details α) (o o' : Orientation) (f : α → α) :
    (x.modify o f).get o' = if o' = o then f (x.get o) else x.get o' := by
  cases o <;> cases o' <;> rfl

end Details

/-- Which of the four bands of a level. -/
inductive Band where
  | approximation
  | detail (o : Orientation)
  deriving DecidableEq

/-- Four bands in buffers of one capacity, with one window. -/
structure BandSet (capacity : Dims) where
  dims : Dims
  fits : dims ≤ capacity
  approximation : Grid Int16 capacity
  details : Details (Grid Int16 capacity)

namespace BandSet

variable {capacity : Dims}

/-- Buffers of zeros with the whole of them as window. -/
def zeros (capacity : Dims) : BandSet capacity :=
  let plane := Grid.fill capacity 0
  { dims := capacity
    fits := capacity.le_refl
    approximation := plane
    details := Details.ofFn fun _ => plane }

/-- Bytes that the four buffers hold. -/
def byteSize (_ : BandSet capacity) : Nat :=
  4 * capacity.area * 2

/-- Cells from the start of one row to the start of the next. -/
def stride (_ : BandSet capacity) : Nat := capacity.width

/-- The whole buffer of a band. -/
@[inline]
def buffer (b : BandSet capacity) : Band → Grid Int16 capacity
  | .approximation => b.approximation
  | .detail o => b.details.get o

/-- What the window shows of a band. -/
@[inline]
def view (b : BandSet capacity) (band : Band) : Raster Int16 b.dims :=
  (b.buffer band).window b.dims b.fits

/-- What the window shows of a detail band. -/
@[inline]
def detail (b : BandSet capacity) (o : Orientation) : Raster Int16 b.dims :=
  b.view (.detail o)

/-- Move the window. Refused when it does not fit. -/
def setDims (b : BandSet capacity) (d : Dims) :
    Except Fault (BandSet capacity) :=
  if h : d ≤ capacity then
    .ok { b with dims := d, fits := h }
  else
    .error (.windowTooLarge d capacity)

/-- Change the buffer of one band. -/
def modify (b : BandSet capacity) (band : Band)
    (f : Grid Int16 capacity → Grid Int16 capacity) : BandSet capacity :=
  match band with
  | .approximation => { b with approximation := f b.approximation }
  | .detail o => { b with details := b.details.modify o f }

/-- The changed buffer shows the change, every other one what it held. -/
theorem buffer_modify (b : BandSet capacity) (band band' : Band)
    (f : Grid Int16 capacity → Grid Int16 capacity) :
    (b.modify band f).buffer band'
      = if band' = band then f (b.buffer band) else b.buffer band' := by
  cases band <;> cases band' <;>
    simp [modify, buffer, Details.get_modify]

/-- Put one value into a band. -/
def put (b : BandSet capacity) (band : Band) (i : Fin b.dims.height)
    (j : Fin b.dims.width) (x : Int16) : BandSet capacity :=
  b.modify band fun g => g.set (i.castLE b.fits.2) (j.castLE b.fits.1) x

/-- Put one value at a row and a column that may lie outside the
window. -/
@[inline]
def putAt (b : BandSet capacity) (band : Band) (row column : Nat)
    (x : Int16) : Except Fault (BandSet capacity) :=
  if h : row < b.dims.height ∧ column < b.dims.width then
    .ok (b.put band ⟨row, h.1⟩ ⟨column, h.2⟩ x)
  else
    .error .outOfBounds

/-- Put a whole picture into the window of a band. -/
def write (b : BandSet capacity) (band : Band) (f : Raster Int16 b.dims) :
    BandSet capacity :=
  b.modify band fun g => g.write b.dims b.fits f

/-- Put one value everywhere in the window of a band. -/
def fill (b : BandSet capacity) (band : Band) (x : Int16) :
    BandSet capacity :=
  b.write band fun _ _ => x

/-- Move the window and put a picture of its size into each detail band.
The approximation is not touched. -/
@[specialize]
def writeDetails (b : BandSet capacity) (d : Dims)
    (f : Orientation → Raster Int16 d) : Except Fault (BandSet capacity) :=
  if h : d ≤ capacity then
    .ok {
      dims := d
      fits := h
      approximation := b.approximation
      details := Details.ofFn fun o => (b.details.get o).write d h (f o) }
  else
    .error (.windowTooLarge d capacity)

end BandSet

end AdditiveDetail

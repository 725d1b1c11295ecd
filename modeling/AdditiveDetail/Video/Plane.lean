/-
Planes: the samples of one picture as a caller hands them over, in bytes
or in 16-bit words, row after row at a stride of its own. What stands
between the end of a row and the start of the next, and behind the last
row, belongs to the buffer and not to the picture; `image` is the
picture.
-/
import AdditiveDetail.Raster
import AdditiveDetail.Error

namespace AdditiveDetail

/-- A buffer of samples. -/
inductive Samples where
  | bytes (data : Array UInt8)
  | words (data : Array UInt16)
  deriving DecidableEq

namespace Samples

def size : Samples → Nat
  | bytes data => data.size
  | words data => data.size

/-- The sample at a place. -/
def get (s : Samples) (i : Nat) (h : i < s.size) : Nat :=
  match s with
  | bytes data => (data[i]).toNat
  | words data => (data[i]).toNat

/-- Whether samples of a depth are stored in buffers of this kind. -/
def holds (s : Samples) (depth : Depth) : Bool :=
  match s, depth with
  | bytes _, .eight => true
  | words _, .ten => true
  | _, _ => false

end Samples

/-- A picture of size `dims` in a buffer of samples. -/
structure Plane where
  samples : Samples
  dims : Dims
  /-- Samples from the start of one row to the start of the next. -/
  stride : Nat
  /-- Bits per sample, as declared. -/
  depth : Nat
  nonempty : dims.Nonempty
  width_le_stride : dims.width ≤ stride
  enough : stride * (dims.height - 1) + dims.width ≤ samples.size

namespace Plane

/-- A plane over a buffer. Its size must not be zero, its stride not be
less than its width, and the buffer must reach to the end of the last
row; it need not reach to the end of the last stride. -/
def ofSamples (samples : Samples) (dims : Dims) (stride depth : Nat) :
    Except Error Plane :=
  if nonempty : dims.Nonempty then
    if width_le_stride : dims.width ≤ stride then
      let needed := stride * (dims.height - 1) + dims.width
      if enough : needed ≤ samples.size then
        .ok {
          samples, dims, stride, depth, nonempty, width_le_stride, enough }
      else
        .error (.planeTooSmall needed samples.size)
    else
      .error (.strideTooSmall stride dims.width)
  else
    .error (.invalidDimensions dims)

/-- A plane of bytes. -/
def ofBytes (data : Array UInt8) (dims : Dims) (stride : Nat) :
    Except Error Plane :=
  ofSamples (.bytes data) dims stride 8

/-- A plane of 16-bit words with a declared depth. -/
def ofWords (data : Array UInt16) (dims : Dims) (stride depth : Nat) :
    Except Error Plane :=
  ofSamples (.words data) dims stride depth

theorem index_lt (p : Plane) (i : Fin p.dims.height)
    (j : Fin p.dims.width) : p.stride * i + j < p.samples.size := by
  have hi : i.val ≤ p.dims.height - 1 := by omega
  have hrow : p.stride * i.val ≤ p.stride * (p.dims.height - 1) :=
    Nat.mul_le_mul_left _ hi
  have := p.enough
  omega

/-- The sample at a row and a column. -/
def sample (p : Plane) : Raster Nat p.dims :=
  fun i j => p.samples.get (p.stride * i + j) (p.index_lt i j)

/-- The picture. -/
def image (p : Plane) : Image where
  dims := p.dims
  sample i j := p.sample i j

end Plane

end AdditiveDetail

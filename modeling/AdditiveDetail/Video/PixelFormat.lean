/-
Layouts of a raw video frame: three planes one after the other, luma
first, then two chroma planes that may be subsampled along one axis or
both. Samples have eight bits in a byte each, or ten bits in two bytes,
low byte first.
-/
import AdditiveDetail.Dims

namespace AdditiveDetail

-- one power on naturals, whatever else is imported
attribute [local instance(high)] instPowNat

/-- Along which axes the chroma planes have half as many samples. -/
inductive Subsampling where
  | both
  | horizontal
  | none
  deriving DecidableEq

namespace Subsampling

/-- How often each axis is halved: across, then down. -/
def shifts : Subsampling → Nat × Nat
  | both => (1, 1)
  | horizontal => (1, 0)
  | none => (0, 0)

/-- The customary digits of the scheme. -/
def digits : Subsampling → String
  | both => "420"
  | horizontal => "422"
  | none => "444"

end Subsampling

/-- How many bits a sample has. -/
inductive Depth where
  | eight
  | ten
  deriving DecidableEq

namespace Depth

def bits : Depth → Nat
  | eight => 8
  | ten => 10

/-- Bytes per stored sample. -/
def bytes : Depth → Nat
  | eight => 1
  | ten => 2

/-- What a format's name has behind its letter for planar storage. -/
def nameEnding : Depth → String
  | eight => ""
  | ten => "10le"

end Depth

/-- The layout of a frame. -/
structure PixelFormat where
  subsampling : Subsampling
  depth : Depth
  deriving DecidableEq

namespace PixelFormat

instance : Inhabited PixelFormat := ⟨⟨.both, .eight⟩⟩

/-- All formats. -/
def all : List PixelFormat :=
  [.eight, .ten].flatMap fun depth =>
    [.both, .horizontal, .none].map fun subsampling => ⟨subsampling, depth⟩

def name (f : PixelFormat) : String :=
  "yuv" ++ f.subsampling.digits ++ "p" ++ f.depth.nameEnding

/-- The format with exactly this name. -/
def ofName? (text : String) : Option PixelFormat :=
  all.find? fun f => f.name = text

/-- The format with this name in any mixture of capitals and small
letters. -/
def ofText? (text : String) : Option PixelFormat :=
  ofName? text.toLower

/-- Size of a chroma plane: an axis that is halved is rounded up. -/
def chromaDims (f : PixelFormat) (d : Dims) : Dims :=
  let (x, y) := f.subsampling.shifts
  { width := (d.width + 2 ^ x - 1) / 2 ^ x
    height := (d.height + 2 ^ y - 1) / 2 ^ y }

/-- Bytes of the luma plane of a frame. -/
def lumaBytes (f : PixelFormat) (d : Dims) : Nat :=
  d.area * f.depth.bytes

/-- Bytes of a whole frame. -/
def frameBytes (f : PixelFormat) (d : Dims) : Nat :=
  (d.area + 2 * (f.chromaDims d).area) * f.depth.bytes

end PixelFormat

end AdditiveDetail

/-
Raw video: frames one after the other without any header. A file is a
video of a layout exactly when its length is a whole number of frames.
Only the luma plane of a frame is ever looked at; the chroma planes are
stepped over.
-/
import AdditiveDetail.Video.Plane

namespace AdditiveDetail

/-- The contents of a file. -/
abbrev Bytes := Array UInt8

/-- A file that holds a whole number of frames. -/
structure RawVideo where
  bytes : Bytes
  dims : Dims
  format : PixelFormat
  nonempty : dims.Nonempty
  whole : bytes.size % format.frameBytes dims = 0

/-- The luma plane of the frame at an index. -/
structure LumaFrame where
  index : Nat
  plane : Plane

namespace RawVideo

/-- The video that a file holds, given its size and layout. -/
def ofBytes (bytes : Bytes) (dims : Dims) (format : PixelFormat) :
    Except Error RawVideo :=
  if nonempty : dims.Nonempty then
    if whole : bytes.size % format.frameBytes dims = 0 then
      .ok { bytes, dims, format, nonempty, whole }
    else
      .error (.invalidVideo (.partialFrame bytes.size dims format))
  else
    .error (.invalidDimensions dims)

/-- The video in a file that may not be readable. An empty picture is
refused before the file is looked at. -/
def ofFile (file : Except IoError Bytes) (dims : Dims)
    (format : PixelFormat) : Except Error RawVideo :=
  if dims.Nonempty then
    match file with
    | .ok bytes => ofBytes bytes dims format
    | .error cause => .error (.io cause)
  else
    .error (.invalidDimensions dims)

variable (v : RawVideo)

/-- Bytes of a frame. -/
def frameBytes : Nat := v.format.frameBytes v.dims

def frameCount : Nat := v.bytes.size / v.frameBytes

/-- All bytes of a frame. -/
def frame (index : Nat) : Except Error Bytes :=
  if index < v.frameCount then
    let start := index * v.frameBytes
    .ok (v.bytes.extract start (start + v.frameBytes))
  else
    .error (.frameOutOfRange index v.frameCount)

/-- The bytes of the luma plane of a frame. -/
def luma (index : Nat) : Except Error Bytes := do
  let bytes ← v.frame index
  return bytes.extract 0 (v.format.lumaBytes v.dims)

/-- Pairs of bytes as words, the low byte first. -/
def wordsOfBytes (bytes : Bytes) : Array UInt16 :=
  Array.ofFn fun i : Fin (bytes.size / 2) =>
    have h : 2 * i.val + 1 < bytes.size := by omega
    let low := bytes[2 * i.val]
    let high := bytes[2 * i.val + 1]
    low.toUInt16 + 256 * high.toUInt16

/-- The luma plane of a frame. -/
def readLuma (index : Nat) : Except Error LumaFrame := do
  let bytes ← v.luma index
  let plane ← match v.format.depth with
    | .eight => Plane.ofBytes bytes v.dims v.dims.width
    | .ten => Plane.ofWords (wordsOfBytes bytes) v.dims v.dims.width 10
  return { index, plane }

/-- The luma planes of all frames. -/
def frames : List (Except Error LumaFrame) :=
  (List.range v.frameCount).map v.readLuma

end RawVideo

end AdditiveDetail

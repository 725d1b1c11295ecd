/-
What can be wrong with the input of a scoring run, by cause. The wording
is in `message` alone; nothing else in the library looks at text to tell
one error from another.
-/
import AdditiveDetail.Fault
import AdditiveDetail.Video.PixelFormat

namespace AdditiveDetail

/-- Why a file could not be read or written. -/
inductive IoError where
  | notFound
  | isDirectory
  | notDirectory
  | nameTooLong
  /-- A name holds the character that ends names. -/
  | nulInName
  /-- The contents cannot be mapped into memory. -/
  | notMappable
  | notUnicode
  | other (text : String)
  deriving DecidableEq

namespace IoError

def message : IoError → String
  | .notFound => "No such file or directory (os error 2)"
  | .isDirectory => "Is a directory (os error 21)"
  | .notDirectory => "Not a directory (os error 20)"
  | .nameTooLong => "File name too long (os error 36)"
  | .nulInName => "file name contained an unexpected NUL byte"
  | .notMappable => "No such device (os error 19)"
  | .notUnicode => "stream did not contain valid UTF-8"
  | .other text => text

end IoError

/-- Why a file is not a raw video of the layout asked for. -/
inductive VideoError where
  | unsupportedFormat (name : String)
  | partialFrame (length : Nat) (dims : Dims) (format : PixelFormat)
  deriving DecidableEq

namespace VideoError

def message : VideoError → String
  | .unsupportedFormat name => "unsupported pixel format '" ++ name ++ "'"
  | .partialFrame length dims format =>
      s!"{length} bytes is not a whole number of " ++ dims.text ++ " "
        ++ format.name ++ s!" frames ({format.frameBytes dims} bytes each)"

end VideoError

inductive Error where
  | io (cause : IoError)
  | invalidDimensions (dims : Dims)
  | dimensionMismatch (expected actual : Dims)
  | depthMismatch (expected actual : Nat)
  | strideTooSmall (stride width : Nat)
  | planeTooSmall (needed actual : Nat)
  | outOfMemory (bytes : Nat)
  | invalidVideo (cause : VideoError)
  | frameOutOfRange (index total : Nat)
  | emptySequence
  deriving DecidableEq

namespace Error

/-- Two sizes in an error text stand in parentheses. -/
def pairText (d : Dims) : String := s!"({d.width}, {d.height})"

def message : Error → String
  | .io cause => "I/O error: " ++ cause.message
  | .invalidDimensions dims => "Invalid image dimensions: " ++ dims.text
  | .dimensionMismatch expected actual =>
      "Dimension mismatch: expected " ++ pairText expected ++ ", got "
        ++ pairText actual
  | .depthMismatch expected actual =>
      s!"Bit depth mismatch: expected {expected}-bit samples, got {actual}-bit"
  | .strideTooSmall stride width =>
      s!"Row stride {stride} is smaller than the plane width {width}"
  | .planeTooSmall needed actual =>
      s!"Plane buffer too small: need {needed} samples, got {actual}"
  | .outOfMemory bytes =>
      s!"Out of memory allocating {bytes} bytes of working buffers"
  | .invalidVideo cause => "Invalid YUV file: " ++ cause.message
  | .frameOutOfRange index total =>
      s!"Frame index {index} out of range (total: {total})"
  | .emptySequence => "Empty frame sequence"

end Error

/-- What ends a computation early: an error of the input, or a fault. -/
inductive Failure where
  | error (cause : Error)
  | fault (cause : Fault)
  deriving DecidableEq

namespace Failure

/-- An error as a failure. -/
def ofError {α : Type} : Except Error α → Except Failure α :=
  Except.mapError .error

/-- A fault as a failure. -/
def ofFault {α : Type} : Except Fault α → Except Failure α :=
  Except.mapError .fault

end Failure

end AdditiveDetail

/-
Floating-point numbers of a format, as exact data: a sign, a mantissa
and an exponent in canonical form, beside the two infinities and one
NaN. Two finite numbers are equal as data exactly when their encodings
have the same bits, so equality of results here IS equality bit for bit;
in particular the two zeros differ.

A NaN carries no payload: nothing that this library computes looks at
one.
-/
import AdditiveDetail.Binary.Format

namespace AdditiveDetail

/-- A number of the format `f`. -/
inductive Binary (f : Format) where
  | nan
  | infinity (negative : Bool)
  | finite (negative : Bool) (mantissa : Nat) (exponent : Int)
      (canonical : f.Canonical mantissa exponent)
  deriving DecidableEq

/-- Single precision numbers. -/
abbrev Binary32 := Binary Format.binary32

/-- Double precision numbers. -/
abbrev Binary64 := Binary Format.binary64

namespace Binary

variable {f : Format}

/-- Zero of either sign. -/
@[inline]
def zero (negative : Bool) : Binary f :=
  .finite negative 0 f.minExponent f.canonical_zero

instance : Zero (Binary f) := ⟨zero false⟩

instance : Inhabited (Binary f) := ⟨0⟩

/-- The number with the given parts, or the infinity of its sign when its
exponent is too great for the format. -/
@[inline]
def ofParts (negative : Bool) (mantissa : Nat) (exponent : Int) :
    Binary f :=
  if h : f.Canonical mantissa exponent then
    .finite negative mantissa exponent h
  else
    .infinity negative

def neg : Binary f → Binary f
  | .nan => .nan
  | .infinity s => .infinity !s
  | .finite s m e h => .finite (!s) m e h

instance : Neg (Binary f) := ⟨neg⟩

def isNaN : Binary f → Bool
  | .nan => true
  | _ => false

/-- Neither an infinity nor a NaN. -/
def isFinite : Binary f → Bool
  | .finite .. => true
  | _ => false

end Binary

end AdditiveDetail

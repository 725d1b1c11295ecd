/-
The four operations and the comparisons. Each operation is the exact
result, rounded once; the cases of infinities and NaN stand beside it.

A sum that is exactly zero is a minus zero only if both terms are minus
zeros; a product or a quotient takes its sign from the signs of its
operands, zeros included.
-/
import AdditiveDetail.Binary.Rounding

namespace AdditiveDetail

namespace Binary

variable {f : Format}

/-- The exponent of a unit that two numbers are multiples of: the smaller
one of theirs. Zero is a multiple of every unit. -/
@[inline]
def commonUnit (m : Nat) (e : Int) (n : Nat) (d : Int) : Int :=
  if m = 0 then d else if n = 0 then e else min e d

/-- A mantissa with its sign, in units of `2 ^ unit`. The number must be a
multiple of the unit. -/
@[inline]
def aligned (negative : Bool) (mantissa : Nat) (exponent unit : Int) : Int :=
  let m : Int := scaleUp mantissa (exponent - unit).toNat
  if negative then -m else m

def add : Binary f → Binary f → Binary f
  | .nan, _ => .nan
  | _, .nan => .nan
  | .infinity s, .infinity t => if s = t then .infinity s else .nan
  | .infinity s, .finite .. => .infinity s
  | .finite .., .infinity t => .infinity t
  | .finite s m e _, .finite t n d _ =>
      let unit := commonUnit m e n d
      let sum := aligned s m e unit + aligned t n d unit
      if sum = 0 then zero (s && t)
      else roundScaled (sum < 0) sum.natAbs unit

instance : Add (Binary f) := ⟨add⟩

instance : Sub (Binary f) := ⟨fun x y => x + -y⟩

def mul : Binary f → Binary f → Binary f
  | .nan, _ => .nan
  | _, .nan => .nan
  | .infinity s, .infinity t => .infinity (s ^^ t)
  | .infinity s, .finite t n _ _ =>
      if n = 0 then .nan else .infinity (s ^^ t)
  | .finite s m _ _, .infinity t =>
      if m = 0 then .nan else .infinity (s ^^ t)
  | .finite s m e _, .finite t n d _ => roundScaled (s ^^ t) (m * n) (e + d)

instance : Mul (Binary f) := ⟨mul⟩

def div : Binary f → Binary f → Binary f
  | .nan, _ => .nan
  | _, .nan => .nan
  | .infinity _, .infinity _ => .nan
  | .infinity s, .finite t _ _ _ => .infinity (s ^^ t)
  | .finite s _ _ _, .infinity t => zero (s ^^ t)
  | .finite s m e _, .finite t n d _ =>
      if n = 0 then
        if m = 0 then .nan else .infinity (s ^^ t)
      else
        round (s ^^ t) (scaleUp m (e - d).toNat) (scaleUp n (d - e).toNat)

instance : Div (Binary f) := ⟨div⟩

/-- The order of two numbers, or none if one of them is a NaN. The two
zeros are equal in this order. -/
def order : Binary f → Binary f → Option Ordering
  | .nan, _ => none
  | _, .nan => none
  | .infinity s, .infinity t => some (compare t s)
  | .infinity s, .finite .. => some (if s then .lt else .gt)
  | .finite .., .infinity t => some (if t then .gt else .lt)
  | .finite s m e _, .finite t n d _ =>
      let unit := commonUnit m e n d
      some (compare (aligned s m e unit) (aligned t n d unit))

/-- Whether `x` is less than `y`; false if one of them is a NaN. -/
def less (x y : Binary f) : Bool :=
  order x y = some .lt

/-- Whether `x` is at most `y`; false if one of them is a NaN. -/
def atMost (x y : Binary f) : Bool :=
  match order x y with
  | some o => o.isLE
  | none => false

/-- Whether two numbers are equal in the order of numbers: the zeros are,
and a NaN is equal to nothing. -/
def same (x y : Binary f) : Bool :=
  order x y = some .eq

/-- The nearest number within `low` and `high`; a NaN stays a NaN. -/
def clamp (x low high : Binary f) : Binary f :=
  if x.less low then low
  else if high.less x then high
  else x

/-- The sum of a list from the left. It starts at minus zero, which changes
no number that is added to it. -/
def sum (xs : List (Binary f)) : Binary f :=
  xs.foldl (· + ·) (zero true)

/-- The mean of a list; the mean of nothing is zero. -/
def mean (xs : List (Binary f)) : Binary f :=
  if xs.isEmpty then 0 else sum xs / ofNat xs.length

end Binary

end AdditiveDetail

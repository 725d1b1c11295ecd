/-
Decimal text of a floating-point number with a fixed count of places. The
exact value is rounded once, half to even, so the text never depends on
a shorter decimal that happens to read back.
-/
import AdditiveDetail.Binary.Rounding

namespace AdditiveDetail

-- one power on naturals, whatever else is imported
attribute [local instance(high)] instPowNat

namespace Binary

variable {f : Format}

/-- `units` tenths, hundredths and so on, as text with `places` digits
behind the point. -/
def decimalText (units places : Nat) : String :=
  if places = 0 then toString units
  else
    let fraction := toString (units % 10 ^ places)
    toString (units / 10 ^ places) ++ "."
      ++ "".pushn '0' (places - fraction.length) ++ fraction

/-- The number with `places` digits behind the point. A number below zero
keeps its sign even when all its digits are zeros, and so does minus
zero. -/
def toFixed (places : Nat) : Binary f → String
  | .nan => "NaN"
  | .infinity s => if s then "-inf" else "inf"
  | .finite s m e _ =>
      let units := nearestEven (m * 2 ^ e.toNat * 10 ^ places)
        (2 ^ (-e).toNat)
      (if s then "-" else "") ++ decimalText units places

end Binary

end AdditiveDetail

/-
Which buffers can be allocated. A buffer has two bytes per sample, and a
buffer of more than `2 ^ 63 - 1` bytes does not exist; sizes and byte
counts are words of 64 bits, and a count that exceeds the greatest word
is reported as the greatest word.
-/
import AdditiveDetail.Band
import AdditiveDetail.Error

namespace AdditiveDetail

-- one power on naturals, whatever else is imported
attribute [local instance(high)] instPowNat

namespace Allocation

/-- The greatest word of 64 bits. -/
def maxWord : Nat := 2 ^ (64 : Nat) - 1

/-- The most bytes that a buffer may have. -/
def maxBytes : Nat := 2 ^ (63 : Nat) - 1

/-- Bytes of a buffer of so many samples, as reported. -/
def reportedBytes (samples : Nat) : Nat := min maxWord (2 * samples)

/-- Whether a row of samples can be allocated. -/
def checkRow (samples : Nat) : Except Error Unit :=
  if 2 * samples ≤ maxBytes then .ok ()
  else .error (.outOfMemory (reportedBytes samples))

/-- Whether a picture can be allocated. An empty axis does not excuse the
other one: the axes that are not empty must multiply to a valid count
too. -/
def checkGrid (d : Dims) : Except Error Unit := do
  if d.area > maxWord then throw (.outOfMemory maxWord)
  checkRow d.area
  if max 1 d.width * max 1 d.height ≤ maxBytes then return ()
  throw (.outOfMemory (reportedBytes d.area))

end Allocation

/-- A picture of zeros. -/
def Grid.allocate (d : Dims) : Except Error (Grid Int16 d) := do
  Allocation.checkGrid d
  return Grid.fill d 0

/-- Sub-bands of zeros with the whole of them as window. -/
def BandSet.allocate (capacity : Dims) :
    Except Error (BandSet capacity) := do
  Allocation.checkGrid capacity
  return BandSet.zeros capacity

end AdditiveDetail

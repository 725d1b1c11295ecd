/-
Faults: what ends a computation because a caller asked for something that
the buffers cannot hold. They are kept apart from the errors of
`Error.lean`, which tell a user what is wrong with the input; a fault says
that sizes were not agreed on beforehand, and a scorer never raises one
for the planes that it accepts.
-/
import AdditiveDetail.Dims

namespace AdditiveDetail

inductive Fault where
  /-- A source is wider than the scratch rows of the transform. -/
  | inputTooWide (width capacity : Nat)
  /-- The window asked for does not fit into the buffers. -/
  | windowTooLarge (dims capacity : Dims)
  /-- A cell outside a buffer or a table was asked for. -/
  | outOfBounds
  deriving DecidableEq

namespace Fault

/-- The text of a fault, where it has one. -/
def message? : Fault → Option String
  | .inputTooWide width capacity =>
      some s!"input width {width} exceeds transform capacity {capacity}"
  | .windowTooLarge dims capacity =>
      some ("sub-band dims " ++ dims.text ++ " exceed capacity "
        ++ capacity.text)
  | .outOfBounds => none

end Fault

end AdditiveDetail

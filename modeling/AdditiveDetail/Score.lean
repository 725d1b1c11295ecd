/-
Scores: of a scale, of a frame, and of a sequence of frames.

A score is the ratio of what is left of the reference detail to the
reference detail itself. Both sums are first compared with a noise floor:
below it a sum counts as zero, and a reference without detail scores one
whatever the distorted picture holds.
-/
import AdditiveDetail.Dims
import AdditiveDetail.Binary.Arithmetic
import AdditiveDetail.Binary.Decimal

namespace AdditiveDetail

/-- What one scale contributes to numerator and denominator. -/
structure ScaleScore where
  num : Binary64
  den : Binary64
  deriving DecidableEq, Inhabited

/-- The score of one pair of frames. -/
structure Score where
  value : Binary64
  num : Binary64
  den : Binary64
  scales : Vector ScaleScore Dims.scaleCount
  deriving DecidableEq

namespace Score

/-- Form the score from the sums over all scales. Sums below `limit` are
zero, and a zero denominator gives the score one. -/
def fold (num den limit : Binary64)
    (scales : Vector ScaleScore Dims.scaleCount) : Score :=
  let floored (x : Binary64) : Binary64 := if x.less limit then 0 else x
  let num := floored num
  let den := floored den
  { value := if den.same 0 then .ofNat 1 else num / den
    num
    den
    scales }

/-- The score of what the scales contribute, summed from the first to the
last. -/
def ofScales (limit : Binary64) (s₀ s₁ s₂ s₃ : ScaleScore) : Score :=
  fold (0 + s₀.num + s₁.num + s₂.num + s₃.num)
    (0 + s₀.den + s₁.den + s₂.den + s₃.den) limit #v[s₀, s₁, s₂, s₃]

/-- Numerators and denominators of the scales, alternating. -/
def flattened (s : Score) : List Binary64 :=
  s.scales.toList.flatMap fun x => [x.num, x.den]

/-- The key under which the score of a frame is published. -/
def metadataKey : String := "lavfi.adm.score"

/-- What is published for a frame: the key, and the score with two
places. -/
def metadata (s : Score) : String × String :=
  (metadataKey, s.value.toFixed 2)

end Score

/-- The score of the pair of frames at an index. -/
structure FrameScore where
  index : Nat
  score : Score
  deriving DecidableEq

/-- The scores of a sequence. -/
structure Summary where
  /-- Scored frames, in their order. -/
  frames : List FrameScore
  /-- Distorted frames that have no reference. -/
  passedThrough : Nat
  /-- Mean score; zero when nothing was scored. -/
  average : Binary64
  deriving DecidableEq

namespace Summary

/-- The summary of scored frames. -/
def ofFrames (frames : List FrameScore) (passedThrough : Nat) :
    Summary where
  frames
  passedThrough
  average := Binary.mean (frames.map fun f => f.score.value)

end Summary

end AdditiveDetail

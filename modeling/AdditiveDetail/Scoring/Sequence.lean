/-
Scoring two videos frame by frame. Frame `i` of the distorted video is
scored against frame `i` of the reference; distorted frames beyond the
end of the reference are passed through without a score.

Whether the videos can be scored at all is decided before the first
frame: both must have the configured size and depth, and the distorted
one must have a frame. How their chroma is subsampled does not matter.
-/
import AdditiveDetail.Scoring.Scorer
import AdditiveDetail.Video.RawVideo

namespace AdditiveDetail

namespace Sequence

/-- Whether a video is one of the configured stream. -/
def checkVideo (config : Config) (v : RawVideo) : Except Error Unit :=
  if v.dims ≠ config.dims then
    .error (.dimensionMismatch config.dims v.dims)
  else if v.format.depth ≠ config.format.depth then
    .error (.depthMismatch config.format.depth.bits v.format.depth.bits)
  else
    .ok ()

/-- How many frames are scored. -/
def pairCount (reference distorted : RawVideo) (config : Config) :
    Except Error Nat := do
  checkVideo config reference
  checkVideo config distorted
  if distorted.frameCount = 0 then throw .emptySequence
  return min reference.frameCount distorted.frameCount

/-- Score the frames at an index. -/
def scorePair (reference distorted : RawVideo) (s : Scorer) (index : Nat) :
    Except Failure FrameScore × Scorer :=
  match reference.readLuma index, distorted.readLuma index with
  | .ok r, .ok d =>
      let (score, s) := s.process r.plane d.plane
      (score.map fun score => { index, score }, s)
  | .error e, _ => (.error (.error e), s)
  | _, .error e => (.error (.error e), s)

/-- Frames scored one after the other, up to the first that fails. -/
structure Progress where
  /-- The scores reported, in order. -/
  scored : List FrameScore
  failure : Option Failure
  scorer : Scorer

/-- Score the frames at the given indices in order. -/
def scoreFrames (reference distorted : RawVideo) :
    (indices : List Nat) → Scorer → Progress
  | [], scorer => { scored := [], failure := none, scorer }
  | index :: rest, s =>
      match scorePair reference distorted s index with
      | (.error failure, scorer) =>
          { scored := [], failure := some failure, scorer }
      | (.ok score, s) =>
          let p := scoreFrames reference distorted rest s
          { p with scored := score :: p.scored }

/-- The outcome of scoring two videos with a scorer. -/
structure Run where
  outcome : Except Failure Summary
  /-- The scores reported while scoring, in order. -/
  reported : List FrameScore
  scorer : Scorer

/-- Score two videos with one scorer. -/
def score (reference distorted : RawVideo) (s : Scorer) : Run :=
  match pairCount reference distorted s.config with
  | .error e => { outcome := .error (.error e), reported := [], scorer := s }
  | .ok paired =>
      let p := scoreFrames reference distorted (List.range paired) s
      { outcome :=
          match p.failure with
          | some failure => .error failure
          | none => .ok
              (Summary.ofFrames p.scored (distorted.frameCount - paired))
        reported := p.scored
        scorer := p.scorer }

end Sequence

end AdditiveDetail

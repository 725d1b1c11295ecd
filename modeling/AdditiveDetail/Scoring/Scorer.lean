/-
A scorer: the long-lived state of one stream. It checks the planes that
it is given, scores them in its buffers and keeps a running average.

Both planes are checked before anything is touched, so a pair that is
refused leaves the scorer as it was.
-/
import AdditiveDetail.Scoring.Arena
import AdditiveDetail.Scoring.Config
import AdditiveDetail.Video.Plane

namespace AdditiveDetail

structure Scorer where
  config : Config
  bench : Bench config.dims.width config.dims.half
  /-- Pairs scored so far. -/
  frameCount : Nat
  /-- Sum of their scores, from the first to the last. -/
  scoreSum : Binary64

namespace Scorer

/-- A scorer that has seen no frame. -/
def allocate (config : Config) : Except Error Scorer := do
  config.validate
  let arena ← Arena.allocate config.dims.half
  let transform ←
    Transform.allocate FilterBank.daubechies config.dims.width
  return {
    config
    bench := { transform, arena }
    frameCount := 0
    scoreSum := 0 }

/-- Whether a plane is one of the configured stream: its size first, then
its depth and the kind of its buffer. -/
def checkPlane (config : Config) (p : Plane) : Except Error Unit :=
  let depth := config.format.depth
  if p.dims ≠ config.dims then
    .error (.dimensionMismatch config.dims p.dims)
  else if p.depth = depth.bits ∧ p.samples.holds depth then
    .ok ()
  else
    .error (.depthMismatch depth.bits p.depth)

/-- The score of a pair that passes the checks, with the scorer after it. -/
def score (s : Scorer) (reference distorted : Plane) :
    Except Failure (Score × Scorer) := do
  Failure.ofError (checkPlane s.config reference)
  Failure.ofError (checkPlane s.config distorted)
  let (score, bench) ← Failure.ofFault
    (s.bench.compute reference.image distorted.image s.config.noiseFloor)
  return (score, { s with
    bench
    frameCount := s.frameCount + 1
    scoreSum := s.scoreSum + score.value })

/-- Score a pair. Where that fails, the scorer stays as it is. -/
def process (s : Scorer) (reference distorted : Plane) :
    Except Failure Score × Scorer :=
  match s.score reference distorted with
  | .ok (score, s') => (.ok score, s')
  | .error failure => (.error failure, s)

/-- Mean score since the scorer was made; zero before the first pair. -/
def average (s : Scorer) : Binary64 :=
  if 0 < s.frameCount then s.scoreSum / .ofNat s.frameCount else 0

/-- End the stream. Of its scorer the mean is left. -/
def finish (s : Scorer) : Binary64 := s.average

end Scorer

end AdditiveDetail

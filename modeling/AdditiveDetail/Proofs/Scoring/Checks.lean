/-
Checks in order.

Four checks stand in front of a pair of planes and five in front of a pair
of videos; the first that is not passed decides what is raised. Both are
told here as LISTS of checks. Which error is raised is then a question
about places in a list (`firstError`), and whether any is raised one about
its members (`firstError_eq_none_iff`).
-/
import AdditiveDetail.Scoring.Sequence

namespace AdditiveDetail

/-- A check, and the error that it raises where it is not passed. -/
structure Check where
  passed : Bool
  error : Error

namespace Check

/-- What a check raises. -/
def error? (c : Check) : Option Error :=
  if c.passed then none else some c.error

/-- What checks raise that are made in order: the error of the first that is
not passed. -/
def firstError (checks : List Check) : Option Error :=
  checks.findSome? error?

/-- Make checks in order. -/
def run (checks : List Check) : Except Error Unit :=
  match firstError checks with
  | some e => .error e
  | none => .ok ()

theorem firstError_eq_none_iff {checks : List Check} :
    firstError checks = none ↔ ∀ c ∈ checks, c.passed := by
  unfold firstError
  rw [List.findSome?_eq_none_iff]
  refine forall₂_congr fun c _ => ?_
  unfold error?
  cases c.passed <;> simp

theorem run_append (first next : List Check) :
    run (first ++ next) = (do run first; run next) := by
  unfold run firstError
  rw [List.findSome?_append]
  cases first.findSome? error? with
  | none => rfl
  | some e => rfl

theorem run_cons (c : Check) (rest : List Check) :
    run (c :: rest) = if c.passed then run rest else .error c.error := by
  unfold run firstError
  rw [List.findSome?_cons]
  unfold error?
  cases c.passed <;> rfl

theorem run_eq_ok {checks : List Check} (h : firstError checks = none) :
    run checks = .ok () := by
  unfold run
  rw [h]

theorem run_eq_error {checks : List Check} {e : Error}
    (h : firstError checks = some e) : run checks = .error e := by
  unfold run
  rw [h]

end Check

-- ==================================================================== planes

namespace Scorer

/-- The checks of a plane: its size, then its depth and the kind of its
buffer. -/
def planeChecks (config : Config) (p : Plane) : List Check :=
  [{ passed := p.dims = config.dims
     error := .dimensionMismatch config.dims p.dims },
    { passed := p.depth = config.format.depth.bits
        ∧ p.samples.holds config.format.depth
      error := .depthMismatch config.format.depth.bits p.depth }]

/-- The checks of a pair: those of the reference, then those of the distorted
plane. -/
def pairChecks (config : Config) (reference distorted : Plane) : List Check :=
  planeChecks config reference ++ planeChecks config distorted

theorem checkPlane_eq_run (config : Config) (p : Plane) :
    checkPlane config p = Check.run (planeChecks config p) := by
  unfold checkPlane planeChecks
  simp only [Check.run_cons, decide_eq_true_eq, ne_eq, ite_not]
  rfl

theorem checkPair_eq_run (config : Config) (reference distorted : Plane) :
    (do checkPlane config reference; checkPlane config distorted)
      = Check.run (pairChecks config reference distorted) := by
  unfold pairChecks
  rw [Check.run_append, checkPlane_eq_run, checkPlane_eq_run]

end Scorer

-- ==================================================================== videos

namespace Sequence

/-- The checks of a video: its size, then its depth. -/
def videoChecks (config : Config) (v : RawVideo) : List Check :=
  [{ passed := v.dims = config.dims
     error := .dimensionMismatch config.dims v.dims },
    { passed := v.format.depth = config.format.depth
      error := .depthMismatch config.format.depth.bits v.format.depth.bits }]

/-- The checks of two videos: those of the reference, those of the distorted
video, and at last whether there is anything to score. -/
def sequenceChecks (config : Config) (reference distorted : RawVideo) :
    List Check :=
  videoChecks config reference ++ videoChecks config distorted
    ++ [{ passed := distorted.frameCount ≠ 0, error := .emptySequence }]

theorem checkVideo_eq_run (config : Config) (v : RawVideo) :
    checkVideo config v = Check.run (videoChecks config v) := by
  unfold checkVideo videoChecks
  simp only [Check.run_cons, decide_eq_true_eq, ne_eq, ite_not]
  rfl

theorem pairCount_eq_run (config : Config) (reference distorted : RawVideo) :
    pairCount reference distorted config = (do
      Check.run (sequenceChecks config reference distorted)
      return min reference.frameCount distorted.frameCount) := by
  unfold pairCount sequenceChecks
  rw [Check.run_append, Check.run_append, checkVideo_eq_run, checkVideo_eq_run,
    Check.run_cons]
  simp only [bind_assoc, decide_eq_true_eq, ne_eq, ite_not]
  by_cases hempty : distorted.frameCount = 0
  · simp only [if_pos hempty]
    rfl
  · simp only [if_neg hempty]
    rfl

end Sequence

end AdditiveDetail

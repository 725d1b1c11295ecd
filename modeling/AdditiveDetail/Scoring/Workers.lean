/-
Scoring two videos with many workers. The frames are cut into chunks, and
each chunk has a worker with a scorer of its own. The workers share one
thing, a counter of the frames done.

# Steps and schedules

A worker takes three steps per frame: it scores the frame, it adds one to
the counter and remembers what it read, and it reports that number plus
one. A schedule is a list of worker numbers, and each entry lets that
worker take its next step; between the steps of one worker any number of
steps of the others may fall. The scores are collected by chunk when all
workers are done, so the order of frames does not depend on the schedule.
-/
import AdditiveDetail.Scoring.Sequence

namespace AdditiveDetail

namespace Sequence

/-- Fewer pairs than this are scored by one scorer. -/
def parallelThreshold : Nat := 4

/-- Frames per worker. -/
def chunkSize : Nat := 8

/-- Where a worker stands with its current frame. -/
inductive Phase where
  | ready
  | scored (score : FrameScore)
  | counted (score : FrameScore) (before : Nat)

structure Worker where
  scorer : Scorer
  /-- Frames not yet scored, in order. -/
  todo : List Nat
  phase : Phase
  /-- Scores reported so far, in order. -/
  done : List FrameScore
  failure : Option Failure

/-- Workers, the shared counter, and the numbers reported so far. -/
structure Pool where
  workers : Array Worker
  counter : Nat
  progress : Array Nat

namespace Worker

def start (scorer : Scorer) (todo : List Nat) : Worker where
  scorer
  todo
  phase := .ready
  done := []
  failure := none

/-- The next step of a worker, given the counter: the worker after it, the
counter after it, and the number reported, if the step reports one. -/
def step (reference distorted : RawVideo) (w : Worker) (counter : Nat) :
    Worker × Nat × Option Nat :=
  match w.phase with
  | .ready =>
      match w.failure, w.todo with
      | none, index :: rest =>
          match scorePair reference distorted w.scorer index with
          | (.ok score, scorer) =>
              ({ w with scorer, todo := rest, phase := .scored score },
                counter, none)
          | (.error failure, scorer) =>
              ({ w with scorer, failure := some failure }, counter, none)
      | _, _ => (w, counter, none)
  | .scored score =>
      ({ w with phase := .counted score counter }, counter + 1, none)
  | .counted score before =>
      ({ w with phase := .ready, done := w.done ++ [score] }, counter,
        some (before + 1))

/-- Whether a worker has nothing left to do. -/
def finished (w : Worker) : Bool :=
  match w.phase with
  | .ready => w.failure.isSome || w.todo.isEmpty
  | _ => false

/-- The scores of a worker that is done, or why it stopped. -/
def outcome (w : Worker) : Except Failure (List FrameScore) :=
  match w.failure with
  | some failure => .error failure
  | none => .ok w.done

end Worker

/-- Cut a list into pieces of `size` elements, the last of which may have
fewer. -/
def chunks {α : Type} (size : Nat) (xs : List α) : List (List α) :=
  (List.range ((xs.length + size - 1) / size)).map fun i =>
    (xs.drop (i * size)).take size

namespace Pool

/-- One worker per chunk, each with a scorer that has seen nothing. -/
def start (fresh : Scorer) (paired : Nat) : Pool where
  workers := ((chunks chunkSize (List.range paired)).map
    (Worker.start fresh)).toArray
  counter := 0
  progress := #[]

/-- Let one worker take a step. -/
def step (reference distorted : RawVideo) (p : Pool) (i : Nat) : Pool :=
  if h : i < p.workers.size then
    let (w, counter, report) := p.workers[i].step reference distorted p.counter
    { workers := p.workers.set i w h
      counter
      progress := p.progress ++ report.toList }
  else p

/-- Run a schedule. -/
def run (reference distorted : RawVideo) (p : Pool) (schedule : List Nat) :
    Pool :=
  schedule.foldl (step reference distorted) p

/-- Whether all workers are done. -/
def finished (p : Pool) : Bool :=
  p.workers.all Worker.finished

/-- A schedule that lets one worker after the other do all its work. -/
def chunkByChunk (p : Pool) : List Nat :=
  (List.range p.workers.size).flatMap fun i =>
    List.replicate (3 * chunkSize) i

/-- The scores of all workers, by chunk, or why a worker stopped. -/
def outcome (p : Pool) : Except Failure (List FrameScore) := do
  let scores ← p.workers.toList.mapM Worker.outcome
  return scores.flatten

end Pool

/-- The outcome of scoring with workers. -/
structure ParallelRun where
  outcome : Except Failure Summary
  /-- The numbers of frames done, as reported. -/
  progress : List Nat

/-- Score two videos with workers that move as the schedule says. A few
frames are scored by one scorer, which reports after each of them. -/
def scoreParallelBy (schedule : Pool → List Nat)
    (reference distorted : RawVideo) (config : Config) : ParallelRun :=
  let failed (e : Error) : ParallelRun :=
    { outcome := .error (.error e), progress := [] }
  match pairCount reference distorted config with
  | .error e => failed e
  | .ok paired =>
      match Scorer.allocate config with
      | .error e => failed e
      | .ok fresh =>
          if paired < parallelThreshold then
            let run := score reference distorted fresh
            { outcome := run.outcome
              progress := (List.range run.reported.length).map (· + 1) }
          else
            let start := Pool.start fresh paired
            let pool := start.run reference distorted (schedule start)
            { outcome := pool.outcome.map fun frames =>
                Summary.ofFrames frames (distorted.frameCount - paired)
              progress := pool.progress.toList }

/-- Score two videos with workers, one chunk after the other. -/
def scoreParallel (reference distorted : RawVideo) (config : Config) :
    ParallelRun :=
  scoreParallelBy Pool.chunkByChunk reference distorted config

end Sequence

end AdditiveDetail

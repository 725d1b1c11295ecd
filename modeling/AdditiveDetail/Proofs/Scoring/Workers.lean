/-
Many workers come to what one scorer comes to.

# The forecast of a worker

What a worker has done and what is left of its frames together say what it
will come to: its `forecast`. No step changes it (`step_forecast`), since
a frame that moves from the one part to the other is scored as a new
scorer scores it, whatever the worker's own scorer has seen. When the
worker is done, the forecast is its outcome.

# The pool

A step of the pool is a step of one worker, so no schedule changes the
list of forecasts (`run_forecasts`). It is the list of chunks, each mapped
by `frameScore`; chunks put together are the frames in order, and mapping
them one after the other is mapping all frames.

# Complete runs

Every step of a worker that is not done leaves it one step less
(`step_remaining`), and it has three for each of its frames. A schedule
that names every worker that often is complete, in whatever order it names
them (`run_finished`).
-/
import AdditiveDetail.Proofs.Scoring.Sequence
import AdditiveDetail.Scoring.Workers

namespace AdditiveDetail

namespace Sequence

variable {reference distorted : RawVideo} {config : Config} {fresh : Scorer}

-- ==================================================================== chunks

/-- The pieces of a list are the list. -/
theorem flatten_chunks {α : Type} {size : Nat} (hsize : 0 < size)
    (xs : List α) : (chunks size xs).flatten = xs := by
  have hceil : xs.length ≤ (xs.length + size - 1) / size * size := by
    have hlt := Nat.lt_div_mul_add (a := xs.length + size - 1) hsize
    omega
  unfold chunks
  rw [flatten_first_chunks, List.take_of_length_le hceil]

theorem length_le_of_mem_chunks {α : Type} {size : Nat} {xs chunk : List α}
    (h : chunk ∈ chunks size xs) : chunk.length ≤ size := by
  obtain ⟨i, -, rfl⟩ := List.mem_map.1 h
  exact List.length_take_le ..

/-- Mapping the pieces one after the other maps the whole. -/
theorem mapM_flatten {ε α β : Type} (g : α → Except ε β)
    (pieces : List (List α)) :
    pieces.flatten.mapM g
      = (pieces.mapM fun piece : List α => piece.mapM g).map List.flatten := by
  induction pieces with
  | nil => rfl
  | cons piece rest ih =>
      rw [List.flatten_cons, List.mapM_append, List.mapM_cons, ih]
      cases piece.mapM g with
      | error e => rfl
      | ok ys =>
          simp only [ok_bind]
          cases rest.mapM (fun piece : List α => piece.mapM g) <;> rfl

-- ================================================================ one worker

namespace Phase

/-- The score that a worker holds but has not reported. -/
def pending : Phase → List FrameScore
  | .ready => []
  | .scored score => [score]
  | .counted score _ => [score]

/-- Steps until the current frame is reported. -/
def remaining : Phase → Nat
  | .ready => 0
  | .scored _ => 2
  | .counted _ _ => 1

end Phase

namespace Worker

/-- What a worker will come to: what it has done, and what a new scorer makes
of the rest. -/
def forecast (reference distorted : RawVideo) (fresh : Scorer) (w : Worker) :
    Except Failure (List FrameScore) :=
  match w.failure with
  | some failure => .error failure
  | none => (w.todo.mapM (frameScore reference distorted fresh)).map fun rest =>
      w.done ++ w.phase.pending ++ rest

/-- A worker that starts will come to its chunk. -/
theorem forecast_start (s : Scorer) (chunk : List Nat) :
    (start s chunk).forecast reference distorted fresh
      = chunk.mapM (frameScore reference distorted fresh) := by
  unfold forecast start
  simp only [Phase.pending, List.append_nil, List.nil_append]
  cases chunk.mapM (frameScore reference distorted fresh) <;> rfl

/-- No step changes what a worker will come to. -/
theorem step_forecast {w : Worker} (hw : w.scorer.Ready config)
    (hfresh : fresh.Ready config) (counter : Nat) :
    (w.step reference distorted counter).1.forecast reference distorted fresh
        = w.forecast reference distorted fresh ∧
      (w.step reference distorted counter).1.scorer.Ready config := by
  obtain ⟨scorer, todo, phase, done, failure⟩ := w
  cases phase with
  | ready =>
      cases failure with
      | some failure => exact ⟨rfl, hw⟩
      | none =>
          cases todo with
          | nil => exact ⟨rfl, hw⟩
          | cons index rest =>
              obtain ⟨hscore, hready⟩ :=
                scorePair_eq reference distorted hw hfresh index
              unfold step forecast
              simp only [List.mapM_cons, ← hscore]
              generalize scorePair reference distorted scorer index = x at hready
              obtain ⟨result, scorer'⟩ := x
              cases result with
              | error failure => exact ⟨rfl, hready⟩
              | ok score =>
                  refine ⟨?_, hready⟩
                  simp only [ok_bind, Phase.pending]
                  cases rest.mapM (frameScore reference distorted fresh) with
                  | error e => rfl
                  | ok scores =>
                      show Except.ok _ = Except.ok _
                      simp
  | scored score => exact ⟨rfl, hw⟩
  | counted score before =>
      refine ⟨?_, hw⟩
      unfold step forecast
      simp only [Phase.pending, List.append_nil]

/-- What a worker that is done came to. -/
theorem outcome_of_finished {w : Worker} (h : w.finished = true) :
    w.outcome = w.forecast reference distorted fresh := by
  obtain ⟨scorer, todo, phase, done, failure⟩ := w
  cases phase with
  | ready =>
      cases failure with
      | some failure => rfl
      | none =>
          cases todo with
          | nil =>
              show Except.ok done = Except.ok _
              simp [Phase.pending]
          | cons => cases h
  | scored => cases h
  | counted => cases h

/-- A worker that has failed will not come to scores. -/
theorem failure_of_forecast {w : Worker} {frames : List FrameScore}
    (h : w.forecast reference distorted fresh = .ok frames) :
    w.failure = none := by
  unfold forecast at h
  cases hf : w.failure with
  | none => rfl
  | some failure => rw [hf] at h; cases h

/-- Steps until a worker is done. -/
def remaining (w : Worker) : Nat :=
  w.phase.remaining + if w.failure.isSome then 0 else 3 * w.todo.length

theorem finished_of_remaining {w : Worker} (h : w.remaining = 0) :
    w.finished = true := by
  obtain ⟨scorer, todo, phase, done, failure⟩ := w
  unfold remaining at h
  cases phase with
  | ready =>
      cases failure with
      | some failure => rfl
      | none =>
          cases todo with
          | nil => rfl
          | cons => simp [Phase.remaining] at h
  | scored => simp [Phase.remaining] at h
  | counted => simp [Phase.remaining] at h

/-- A step leaves one step less, until there is none. -/
theorem step_remaining (w : Worker) (counter : Nat) :
    (w.step reference distorted counter).1.remaining ≤ w.remaining - 1 := by
  obtain ⟨scorer, todo, phase, done, failure⟩ := w
  cases phase with
  | ready =>
      cases failure with
      | some failure => exact Nat.zero_le _
      | none =>
          cases todo with
          | nil => exact Nat.zero_le _
          | cons index rest =>
              unfold step
              simp only
              generalize scorePair reference distorted scorer index = x
              obtain ⟨result, scorer'⟩ := x
              cases result with
              | error failure => exact Nat.zero_le _
              | ok score =>
                  simp [remaining, Phase.remaining]
                  omega
  | scored score =>
      unfold step remaining
      simp only [Phase.remaining]
      omega
  | counted score before =>
      unfold step remaining
      simp only [Phase.remaining]
      omega

end Worker

-- ================================================================== the pool

namespace Pool

/-- What the workers will come to, by chunk. -/
def forecasts (reference distorted : RawVideo) (fresh : Scorer) (p : Pool) :
    List (Except Failure (List FrameScore)) :=
  p.workers.toList.map (Worker.forecast reference distorted fresh)

/-- All workers have scorers of the configuration. -/
def Ready (config : Config) (p : Pool) : Prop :=
  ∀ w ∈ p.workers.toList, w.scorer.Ready config

theorem forecasts_start (fresh : Scorer) (paired : Nat) :
    (start fresh paired).forecasts reference distorted fresh
      = (chunks chunkSize (List.range paired)).map fun chunk =>
          chunk.mapM (frameScore reference distorted fresh) := by
  unfold forecasts start
  rw [List.toList_toArray, List.map_map]
  exact List.map_congr_left fun chunk _ => Worker.forecast_start fresh chunk

theorem ready_start (hfresh : fresh.Ready config) (paired : Nat) :
    (start fresh paired).Ready config := by
  intro w hw
  unfold start at hw
  rw [List.toList_toArray] at hw
  obtain ⟨chunk, -, rfl⟩ := List.mem_map.1 hw
  exact hfresh

/-- A step of the pool is a step of one worker. -/
theorem step_workers (p : Pool) (i : Nat) :
    (p.step reference distorted i).workers.toList
      = p.workers.toList.modify i fun w =>
          (w.step reference distorted p.counter).1 := by
  unfold step
  split
  · next h =>
      rw [List.modify_eq_set_getElem?]
      simp [h]
  · next h =>
      rw [List.modify_eq_self]
      simpa using h

/-- A worker of a pool that took a step is one of the pool before it, with or
without a step of its own. -/
theorem getElem?_step {p : Pool} {i j : Nat} {w' : Worker}
    (h : (p.step reference distorted i).workers.toList[j]? = some w') :
    ∃ w, p.workers.toList[j]? = some w ∧
      w' = if i = j then (w.step reference distorted p.counter).1 else w := by
  rw [step_workers, List.getElem?_modify] at h
  obtain ⟨w, hw, rfl⟩ := Option.map_eq_some_iff.1 h
  exact ⟨w, hw, rfl⟩

theorem step_ready {p : Pool} (hp : p.Ready config)
    (hfresh : fresh.Ready config) (i : Nat) :
    (p.step reference distorted i).Ready config := by
  intro w' hw'
  obtain ⟨j, hj⟩ := List.mem_iff_getElem?.1 hw'
  obtain ⟨w, hw, rfl⟩ := getElem?_step hj
  have hready := hp w (List.mem_of_getElem? hw)
  split
  · exact (Worker.step_forecast hready hfresh p.counter).2
  · exact hready

/-- A step of the pool does not change what its workers will come to. -/
theorem step_forecasts {p : Pool} (hp : p.Ready config)
    (hfresh : fresh.Ready config) (i : Nat) :
    (p.step reference distorted i).forecasts reference distorted fresh
      = p.forecasts reference distorted fresh := by
  unfold forecasts
  rw [step_workers]
  refine List.ext_getElem? fun j => ?_
  rw [List.getElem?_map, List.getElem?_map, List.getElem?_modify]
  cases hw : p.workers.toList[j]? with
  | none => rfl
  | some w =>
      have hready := hp w (List.mem_of_getElem? hw)
      have hstep : (w.step reference distorted p.counter).1.forecast reference
          distorted fresh = w.forecast reference distorted fresh :=
        (Worker.step_forecast hready hfresh p.counter).1
      by_cases hij : i = j
      · simp [hij, hstep]
      · simp [hij]

/-- No schedule changes what the workers will come to. -/
theorem run_forecasts {p : Pool} (hp : p.Ready config)
    (hfresh : fresh.Ready config) (schedule : List Nat) :
    (p.run reference distorted schedule).forecasts reference distorted fresh
      = p.forecasts reference distorted fresh := by
  unfold run
  induction schedule generalizing p with
  | nil => rfl
  | cons i rest ih =>
      exact (ih (step_ready hp hfresh i)).trans (step_forecasts hp hfresh i)

/-- No worker ever fails on videos that pass the checks, so that it does not
matter whose failure would be returned. -/
theorem run_unfailed (hfresh : fresh.Ready config) {paired : Nat}
    (hpaired : pairCount reference distorted config = .ok paired)
    (schedule : List Nat) {w : Worker}
    (hw : w ∈ ((start fresh paired).run reference distorted
      schedule).workers.toList) : w.failure = none := by
  have hforecast : w.forecast reference distorted fresh
      ∈ ((start fresh paired).run reference distorted schedule).forecasts
        reference distorted fresh := List.mem_map_of_mem hw
  rw [run_forecasts (ready_start hfresh paired) hfresh, forecasts_start]
    at hforecast
  obtain ⟨chunk, hchunk, heq⟩ := List.mem_map.1 hforecast
  have hscores : ∀ index ∈ chunk, ∃ frame,
      frameScore reference distorted fresh index = .ok frame ∧ True := by
    intro index hindex
    have hmem := List.mem_flatten_of_mem hchunk hindex
    rw [flatten_chunks (by decide), List.mem_range] at hmem
    obtain ⟨frame, hframe⟩ := exists_frameScore hfresh hpaired hmem
    exact ⟨frame, hframe, trivial⟩
  obtain ⟨frames, hframes, -⟩ := mapM_ok hscores
  rw [hframes] at heq
  exact Worker.failure_of_forecast heq.symm

theorem finished_iff {p : Pool} :
    p.finished = true ↔ ∀ w ∈ p.workers.toList, w.finished = true := by
  unfold finished
  rw [← Array.all_toList, List.all_eq_true]

theorem mapM_outcome (reference distorted : RawVideo) (fresh : Scorer)
    {p : Pool} (h : p.finished = true) :
    p.workers.toList.mapM Worker.outcome
      = (p.forecasts reference distorted fresh).mapM id := by
  have hall := finished_iff.1 h
  unfold forecasts
  rw [List.mapM_map]
  generalize p.workers.toList = workers at hall
  induction workers with
  | nil => rfl
  | cons w rest ih =>
      have hw : w.outcome = w.forecast reference distorted fresh :=
        Worker.outcome_of_finished (hall w List.mem_cons_self)
      rw [List.mapM_cons, List.mapM_cons, hw,
        ih fun w' hw' => hall w' (List.mem_cons_of_mem w hw')]
      rfl

/-- When all workers are done, the pool has come to what a single scorer
comes to on all frames. -/
theorem outcome_of_finished (hfresh : fresh.Ready config) {paired : Nat}
    {schedule : List Nat}
    (h : ((start fresh paired).run reference distorted schedule).finished
      = true) :
    ((start fresh paired).run reference distorted schedule).outcome
      = (List.range paired).mapM (frameScore reference distorted fresh) := by
  have hforecasts : ((start fresh paired).run reference distorted
      schedule).forecasts reference distorted fresh
        = (start fresh paired).forecasts reference distorted fresh :=
    run_forecasts (ready_start hfresh paired) hfresh schedule
  have hworkers := mapM_outcome reference distorted fresh h
  unfold outcome
  rw [hworkers, hforecasts, forecasts_start, List.mapM_map]
  have hwhole := mapM_flatten (frameScore reference distorted fresh)
    (chunks chunkSize (List.range paired))
  rw [flatten_chunks (by decide)] at hwhole
  exact hwhole.symm

-- ============================================================= complete runs

/-- Every turn that a schedule gives to a worker leaves it one step less. -/
theorem run_remaining {p : Pool} {schedule : List Nat} {j : Nat} {w' : Worker}
    (h : (p.run reference distorted schedule).workers.toList[j]? = some w') :
    ∃ w, p.workers.toList[j]? = some w ∧
      w'.remaining ≤ w.remaining - schedule.count j := by
  unfold run at h
  induction schedule generalizing p with
  | nil => exact ⟨w', h, Nat.le_refl _⟩
  | cons i rest ih =>
      obtain ⟨w₁, hw₁, hle⟩ := ih h
      obtain ⟨w, hw, rfl⟩ := getElem?_step hw₁
      refine ⟨w, hw, ?_⟩
      by_cases hij : i = j
      · have hstep : (w.step reference distorted p.counter).1.remaining
            ≤ w.remaining - 1 := w.step_remaining p.counter
        rw [if_pos hij] at hle
        rw [hij, List.count_cons_self]
        omega
      · rw [if_neg hij] at hle
        rwa [List.count_cons_of_ne hij]

/-- A schedule that gives every worker three turns for each frame that a
chunk can have lets all workers finish. -/
theorem run_finished (s : Scorer) (paired : Nat) {schedule : List Nat}
    (h : ∀ i < (start s paired).workers.size,
      3 * chunkSize ≤ schedule.count i) :
    ((start s paired).run reference distorted schedule).finished = true := by
  refine finished_iff.2 fun w' hw' => ?_
  obtain ⟨j, hj⟩ := List.mem_iff_getElem?.1 hw'
  obtain ⟨w, hw, hle⟩ := run_remaining hj
  have hturns := h j (by
    have := (List.getElem?_eq_some_iff.1 hw).1
    rwa [Array.length_toList] at this)
  have hstart : w.remaining ≤ 3 * chunkSize := by
    have hmem := List.mem_of_getElem? hw
    unfold start at hmem
    rw [List.toList_toArray] at hmem
    obtain ⟨chunk, hchunk, rfl⟩ := List.mem_map.1 hmem
    have hlen := length_le_of_mem_chunks hchunk
    have hremaining : (Worker.start s chunk).remaining = 3 * chunk.length :=
      Nat.zero_add _
    omega
  exact Worker.finished_of_remaining (by omega)

/-- One worker after the other is a complete schedule. -/
theorem le_count_chunkByChunk {p : Pool} {i : Nat} (h : i < p.workers.size) :
    3 * chunkSize ≤ p.chunkByChunk.count i := by
  have hsub : (List.replicate (3 * chunkSize) i).Sublist p.chunkByChunk := by
    unfold chunkByChunk
    rw [List.flatMap_def]
    exact List.sublist_flatten_of_mem
      (List.mem_map.2 ⟨i, List.mem_range.2 h, rfl⟩)
  have hcount := hsub.count_le i
  rwa [List.count_replicate_self] at hcount

end Pool

-- =============================================================== the outcome

/-- Workers that all finish come to what one new scorer comes to. -/
theorem outcome_scoreParallelBy (hfresh : Scorer.allocate config = .ok fresh)
    (schedule : Pool → List Nat)
    (hfinished : ∀ paired,
      pairCount reference distorted config = .ok paired →
      parallelThreshold ≤ paired →
      ((Pool.start fresh paired).run reference distorted
        (schedule (Pool.start fresh paired))).finished = true) :
    (scoreParallelBy schedule reference distorted config).outcome
      = (score reference distorted fresh).outcome := by
  have hready := Scorer.allocate_ready hfresh
  unfold scoreParallelBy
  cases hpaired : pairCount reference distorted config with
  | error e =>
      unfold score
      rw [hready.config_eq, hpaired]
  | ok paired =>
      simp only [hfresh]
      by_cases hfew : paired < parallelThreshold
      · rw [if_pos hfew]
      · rw [if_neg hfew, score_outcome hready hready hpaired]
        simp only [Pool.outcome_of_finished hready
          (hfinished paired hpaired (Nat.le_of_not_lt hfew))]

/-- So do workers that go chunk by chunk. -/
theorem outcome_scoreParallel (hfresh : Scorer.allocate config = .ok fresh)
    (reference distorted : RawVideo) :
    (scoreParallel reference distorted config).outcome
      = (score reference distorted fresh).outcome :=
  outcome_scoreParallelBy hfresh Pool.chunkByChunk fun paired _ _ =>
    Pool.run_finished fresh paired fun _ => Pool.le_count_chunkByChunk

/-- PARALLEL IS SEQUENTIAL: for every schedule that lets all workers finish,
in whatever order it names them, scoring with workers has the outcome of
scoring with one new scorer, errors included. The schedule that goes chunk
by chunk is one of these. An error is one that the checks in front of the
workers found; no worker fails, at whatever point a schedule stops. -/
theorem scoreParallelBy_outcome (config : Config) (fresh : Scorer)
    (hfresh : Scorer.allocate config = .ok fresh)
    (reference distorted : RawVideo) :
    (∀ schedule : Pool → List Nat,
      (∀ paired, pairCount reference distorted config = .ok paired →
        parallelThreshold ≤ paired →
        ((Pool.start fresh paired).run reference distorted
          (schedule (Pool.start fresh paired))).finished = true) →
      (scoreParallelBy schedule reference distorted config).outcome
        = (score reference distorted fresh).outcome) ∧
    (scoreParallel reference distorted config).outcome
      = (score reference distorted fresh).outcome ∧
    ∀ paired, pairCount reference distorted config = .ok paired →
      ∀ (turns : List Nat) (w : Worker),
        w ∈ ((Pool.start fresh paired).run reference distorted
          turns).workers.toList → w.failure = none := by
  exact ⟨outcome_scoreParallelBy hfresh,
    outcome_scoreParallel hfresh reference distorted,
    fun paired hpaired turns w hw =>
      Pool.run_unfailed (Scorer.allocate_ready hfresh) hpaired turns hw⟩

/-- Frames of a single luma sample. -/
def pixelFrames (count : Nat) : RawVideo where
  bytes := Array.replicate (count * 3) 77
  dims := ⟨1, 1⟩
  format := default
  nonempty := Scorer.pixelConfig_nonempty
  whole := by
    rw [Array.size_replicate]
    exact Nat.mul_mod_left count 3

/-- Two workers in turn, the second one first. -/
def inTurn : List Nat := (List.replicate (3 * chunkSize) [1, 0]).flatten

/-- Nine frames make two chunks, of eight frames and of one. -/
theorem scoreParallelBy_inTurn : ∃ fresh,
    Scorer.allocate Scorer.pixelConfig = .ok fresh ∧
      (scoreParallelBy (fun _ => inTurn) (pixelFrames 9) (pixelFrames 11)
          Scorer.pixelConfig).outcome
        = (score (pixelFrames 9) (pixelFrames 11) fresh).outcome := by
  obtain ⟨fresh, hfresh⟩ : ∃ s, Scorer.allocate Scorer.pixelConfig = .ok s :=
    ⟨_, rfl⟩
  refine ⟨fresh, hfresh, (scoreParallelBy_outcome Scorer.pixelConfig fresh hfresh
    (pixelFrames 9) (pixelFrames 11)).1 (fun _ => inTurn) ?_⟩
  intro paired hpaired _
  have hnine : pairCount (pixelFrames 9) (pixelFrames 11) Scorer.pixelConfig
      = .ok 9 := rfl
  obtain rfl : 9 = paired := Except.ok.inj (hnine.symm.trans hpaired)
  refine Pool.run_finished fresh 9 fun i hi => ?_
  have htwo : i < 2 := hi
  match i with
  | 0 => decide
  | 1 => decide

end Sequence

end AdditiveDetail

/-
No progress is lost between workers.

# The ledger

The counter is shared, and between the increment of a worker and its report
any number of steps of the others may fall. So a schedule is watched
through a ledger (`Ledger`): the counter is the number of frames counted so
far, and the numbers reported, together with those that workers have read
but not reported, are those from one to the counter, each once. A turn
enters at most one frame, for which the counter and the numbers both gain
one (`step_ledger`); a report moves a number from a worker to the list and
changes nothing else.

# Complete runs

The frames of all workers, done and to do, are those of the start, whatever
the schedule (`run_frames`), so no frame is counted twice. A worker that is
done has counted all of its frames and holds no number: then the numbers
reported are all there are, and there is one for each pair of frames.
-/
import AdditiveDetail.Proofs.Scoring.Pairing
import AdditiveDetail.Proofs.Scoring.Workers

namespace AdditiveDetail

namespace Sequence

variable {reference distorted : RawVideo} {fresh : Scorer}

-- ================================================================ one worker

namespace Phase

/-- The score of a frame that the next step counts. -/
def uncounted : Phase → List FrameScore
  | .scored score => [score]
  | _ => []

/-- The score of a frame that has been counted but not reported. -/
def unreported : Phase → List FrameScore
  | .counted score _ => [score]
  | _ => []

/-- The number that the next step reports. -/
def held : Phase → List Nat
  | .counted _ before => [before + 1]
  | _ => []

end Phase

namespace Worker

/-- The frames of a worker, those done first. -/
def frames (w : Worker) : List Nat :=
  (w.done ++ w.phase.pending).map FrameScore.index ++ w.todo

/-- The frames for which the worker has incremented the counter. -/
def counted (w : Worker) : List Nat :=
  (w.done ++ w.phase.unreported).map FrameScore.index

/-- The frame for which the next step of the worker increments the counter,
if that is what it does. -/
def increment (w : Worker) : List Nat :=
  w.phase.uncounted.map FrameScore.index

theorem counted_sublist (w : Worker) : w.counted.Sublist w.frames := by
  obtain ⟨scorer, todo, phase, done, failure⟩ := w
  refine List.Sublist.trans ?_ (List.sublist_append_left ..)
  refine List.Sublist.map _ (List.Sublist.append_left ?_ done)
  cases phase with
  | ready => exact List.Sublist.refl _
  | scored score => exact List.nil_sublist _
  | counted score before => exact List.Sublist.refl _

/-- A score belongs to the frame that was to be scored. -/
theorem index_of_scorePair {s s' : Scorer} {index : Nat} {score : FrameScore}
    (h : scorePair reference distorted s index = (.ok score, s')) :
    score.index = index := by
  unfold scorePair at h
  cases hr : reference.readLuma index with
  | error e => rw [hr] at h; cases h
  | ok r =>
      cases hd : distorted.readLuma index with
      | error e => rw [hr, hd] at h; cases h
      | ok d =>
          rw [hr, hd] at h
          cases hprocess : s.process r.plane d.plane with
          | mk result s'' =>
              simp only [hprocess] at h
              cases result with
              | error failure => cases h
              | ok score' => cases h; rfl

/-- A step changes the order of frames neither done nor to do. -/
theorem step_frames (w : Worker) (counter : Nat) :
    (w.step reference distorted counter).1.frames = w.frames := by
  obtain ⟨scorer, todo, phase, done, failure⟩ := w
  cases phase with
  | ready =>
      cases failure with
      | some failure => rfl
      | none =>
          cases todo with
          | nil => rfl
          | cons index rest =>
              unfold step
              simp only
              cases hpair : scorePair reference distorted scorer index with
              | mk result scorer' =>
                  cases result with
                  | error failure => rfl
                  | ok score =>
                      have hindex := index_of_scorePair hpair
                      simp [frames, Phase.pending, hindex]
  | scored score => rfl
  | counted score before => simp [step, frames, Phase.pending]

/-- A step enters the frame that it increments the counter for. -/
theorem step_counted (reference distorted : RawVideo) (w : Worker)
    (counter : Nat) :
    (w.step reference distorted counter).1.counted = w.counted ++ w.increment ∧
      (w.step reference distorted counter).2.1
        = counter + w.increment.length := by
  obtain ⟨scorer, todo, phase, done, failure⟩ := w
  cases phase with
  | ready =>
      cases failure with
      | some failure => exact ⟨(List.append_nil _).symm, rfl⟩
      | none =>
          cases todo with
          | nil => exact ⟨(List.append_nil _).symm, rfl⟩
          | cons index rest =>
              unfold step
              simp only
              cases scorePair reference distorted scorer index with
              | mk result scorer' =>
                  cases result <;> exact ⟨(List.append_nil _).symm, rfl⟩
  | scored score =>
      simp [step, counted, increment, Phase.unreported, Phase.uncounted]
  | counted score before =>
      simp [step, counted, increment, Phase.unreported, Phase.uncounted]

/-- The number that a worker reads is the counter plus one; the number that
it reports is the one that it held. -/
theorem step_numbers (reference distorted : RawVideo) (w : Worker)
    (counter : Nat) :
    (w.step reference distorted counter).2.2.toList
        ++ (w.step reference distorted counter).1.phase.held
      = w.phase.held ++ w.increment.map fun _ => counter + 1 := by
  obtain ⟨scorer, todo, phase, done, failure⟩ := w
  cases phase with
  | ready =>
      cases failure with
      | some failure => rfl
      | none =>
          cases todo with
          | nil => rfl
          | cons index rest =>
              unfold step
              simp only
              cases scorePair reference distorted scorer index with
              | mk result scorer' => cases result <;> rfl
  | scored score => rfl
  | counted score before => rfl

/-- An increment is of one frame at most, so the numbers gain one at most. -/
theorem range'_increment (w : Worker) (counter : Nat) :
    List.range' 1 (counter + w.increment.length)
      = List.range' 1 counter ++ w.increment.map fun _ => counter + 1 := by
  obtain ⟨scorer, todo, phase, done, failure⟩ := w
  cases phase with
  | ready => exact (List.append_nil _).symm
  | scored score =>
      show List.range' 1 (counter + 1) = _ ++ [counter + 1]
      rw [List.range'_1_concat, Nat.add_comm 1]
  | counted score before => exact (List.append_nil _).symm

/-- A worker that is done without a failure has counted all of its frames and
reported all that it read. -/
theorem counted_of_finished {w : Worker} (h : w.finished = true)
    (hfailure : w.failure = none) :
    w.counted = w.frames ∧ w.phase.held = [] := by
  obtain ⟨scorer, todo, phase, done, failure⟩ := w
  obtain rfl : failure = none := hfailure
  cases phase with
  | ready =>
      cases todo with
      | nil => exact ⟨(List.append_nil _).symm, rfl⟩
      | cons => cases h
  | scored => cases h
  | counted => cases h

end Worker

-- ================================================================== the pool

namespace Pool

/-- The frames of all workers. -/
def frames (p : Pool) : List Nat := p.workers.toList.flatMap Worker.frames

/-- The frames for which the counter has been incremented, by worker. -/
def counted (p : Pool) : List Nat := p.workers.toList.flatMap Worker.counted

/-- The numbers that workers have read and not reported. -/
def held (p : Pool) : List Nat :=
  p.workers.toList.flatMap fun w => w.phase.held

/-- The frame for which a turn of a worker increments the counter, if that is
what it does. -/
def increment (p : Pool) (i : Nat) : List Nat :=
  match p.workers.toList[i]? with
  | some w => w.increment
  | none => []

/-- The frames whose increments happen in a schedule, in the order in which
they happen. -/
def increments (reference distorted : RawVideo) : Pool → List Nat → List Nat
  | _, [] => []
  | p, i :: rest =>
      p.increment i ++ increments reference distorted
        (p.step reference distorted i) rest

/-- What is true of the counter and the numbers when these frames have been
counted. -/
structure Ledger (entries : List Nat) (p : Pool) : Prop where
  counter_eq : p.counter = entries.length
  entries_perm : entries.Perm p.counted
  numbers_perm : (p.progress.toList ++ p.held).Perm (List.range' 1 p.counter)

/-- A turn is a step of one worker, or of none. -/
theorem step_cases (reference distorted : RawVideo) (p : Pool) (i : Nat) :
    (∃ front w back, p.workers.toList = front ++ w :: back ∧
        (p.step reference distorted i).workers.toList
          = front ++ (w.step reference distorted p.counter).1 :: back ∧
        (p.step reference distorted i).counter
          = (w.step reference distorted p.counter).2.1 ∧
        (p.step reference distorted i).progress.toList = p.progress.toList
          ++ (w.step reference distorted p.counter).2.2.toList ∧
        p.increment i = w.increment) ∨
      p.step reference distorted i = p ∧ p.increment i = [] := by
  by_cases h : i < p.workers.size
  · have hlist : i < p.workers.toList.length := by simpa using h
    have hw : p.workers.toList[i]? = some p.workers[i] := by simp [h]
    left
    refine ⟨p.workers.toList.take i, p.workers[i],
      p.workers.toList.drop (i + 1), ?_, ?_, ?_, ?_, ?_⟩
    · exact (List.take_append_drop i p.workers.toList).symm.trans
        (congrArg _ (List.drop_eq_getElem_cons hlist))
    · rw [step_workers, List.modify_eq_take_cons_drop hlist]
      rfl
    · unfold step
      rw [dif_pos h]
    · unfold step
      rw [dif_pos h]
      exact Array.toList_appendList
    · unfold increment
      rw [hw]
  · have hw : p.workers.toList[i]? = none := by simpa using h
    right
    unfold step increment
    rw [dif_neg h, hw]
    exact ⟨rfl, rfl⟩

theorem step_frames (p : Pool) (i : Nat) :
    (p.step reference distorted i).frames = p.frames := by
  rcases step_cases reference distorted p i with
    ⟨front, w, back, hworkers, hstep, -⟩ | ⟨hstep, -⟩
  · unfold frames
    simp only [hstep, hworkers, List.flatMap_append, List.flatMap_cons,
      Worker.step_frames]
  · rw [hstep]

/-- No schedule changes the order of frames neither done nor to do. -/
theorem run_frames (p : Pool) (schedule : List Nat) :
    (p.run reference distorted schedule).frames = p.frames := by
  unfold run
  induction schedule generalizing p with
  | nil => rfl
  | cons i rest ih =>
      exact (ih (p.step reference distorted i)).trans (step_frames p i)

theorem frames_start (fresh : Scorer) (paired : Nat) :
    (start fresh paired).frames = List.range paired := by
  have hframes (chunk : List Nat) :
      (Worker.start fresh chunk).frames = chunk := rfl
  unfold frames start
  rw [List.toList_toArray, List.flatMap_map]
  simp only [hframes]
  rw [List.flatMap_id', flatten_chunks (by decide)]

/-- A turn enters the frame that it increments the counter for. -/
theorem step_ledger {entries : List Nat} {p : Pool} (h : p.Ledger entries)
    (i : Nat) :
    (p.step reference distorted i).Ledger (entries ++ p.increment i) := by
  rcases step_cases reference distorted p i with
    ⟨front, w, back, hworkers, hstep, hcounter, hprogress, hincrement⟩
      | ⟨hstep, hincrement⟩
  · obtain ⟨hcounted, hadd⟩ := w.step_counted reference distorted p.counter
    have hnumbers := w.step_numbers reference distorted p.counter
    rw [← hcounter] at hadd
    refine ⟨?_, List.perm_iff_count.2 fun n => ?_,
      List.perm_iff_count.2 fun n => ?_⟩
    · rw [hadd, h.counter_eq, List.length_append, hincrement]
    · have hentries := h.entries_perm.count_eq n
      unfold counted at hentries ⊢
      rw [hworkers] at hentries
      simp only [hstep, hincrement, List.flatMap_append, List.flatMap_cons,
        List.count_append, hcounted] at hentries ⊢
      omega
    · have hreported := h.numbers_perm.count_eq n
      have hmoved := congrArg (List.count n) hnumbers
      unfold held at hreported ⊢
      rw [hworkers] at hreported
      rw [hadd, w.range'_increment]
      simp only [hstep, hprogress, List.flatMap_append, List.flatMap_cons,
        List.count_append] at hreported hmoved ⊢
      omega
  · rwa [hstep, hincrement, List.append_nil]

/-- At every moment of a schedule the ledger has the frames whose increments
have happened. -/
theorem run_ledger {entries : List Nat} {p : Pool} (h : p.Ledger entries)
    (schedule : List Nat) :
    (p.run reference distorted schedule).Ledger
      (entries ++ p.increments reference distorted schedule) := by
  unfold run
  induction schedule generalizing p entries with
  | nil => rwa [increments, List.append_nil]
  | cons i rest ih =>
      rw [increments, ← List.append_assoc]
      exact ih (step_ledger h i)

/-- Nothing is entered in front of the first turn. -/
theorem ledger_start (fresh : Scorer) (paired : Nat) :
    (start fresh paired).Ledger [] := by
  have hcounted (chunk : List Nat) : (Worker.start fresh chunk).counted = [] :=
    rfl
  have hheld (chunk : List Nat) :
      (Worker.start fresh chunk).phase.held = [] := rfl
  refine ⟨rfl, ?_, ?_⟩ <;> unfold start <;>
    simp [counted, held, List.flatMap_map, hcounted, hheld]

/-- The frames counted are frames that both videos have, none twice. -/
theorem Ledger.entries_distinct {entries : List Nat} {p : Pool}
    (h : p.Ledger entries) {paired : Nat}
    (hframes : p.frames = List.range paired) :
    entries.Nodup ∧ ∀ index ∈ entries, index < paired := by
  have hsub : p.counted.Sublist (List.range paired) := by
    rw [← hframes]
    unfold counted frames
    generalize p.workers.toList = workers
    induction workers with
    | nil => exact List.Sublist.refl _
    | cons w rest ih => exact w.counted_sublist.append ih
  refine ⟨h.entries_perm.nodup_iff.2 (hsub.nodup List.nodup_range), ?_⟩
  intro index hindex
  exact List.mem_range.1 (hsub.subset (h.entries_perm.mem_iff.1 hindex))

/-- When all workers are done and none has failed, the numbers reported are
those from one to the number of frames. -/
theorem Ledger.progress_perm {entries : List Nat} {p : Pool}
    (h : p.Ledger entries) {paired : Nat}
    (hframes : p.frames = List.range paired) (hfinished : p.finished = true)
    (hfailure : ∀ w ∈ p.workers.toList, w.failure = none) :
    p.progress.toList.Perm (List.range' 1 paired) := by
  have hdone (w : Worker) (hw : w ∈ p.workers.toList) :=
    Worker.counted_of_finished (finished_iff.1 hfinished w hw) (hfailure w hw)
  have hcounted : p.counted = List.range paired := by
    rw [← hframes]
    exact List.flatMap_congr fun w hw => (hdone w hw).1
  have hheld : p.held = [] :=
    List.flatMap_eq_nil_iff.2 fun w hw => (hdone w hw).2
  have hcounter : p.counter = paired := by
    rw [h.counter_eq, h.entries_perm.length_eq, hcounted, List.length_range]
  have hnumbers := h.numbers_perm
  rwa [hheld, List.append_nil, hcounter] at hnumbers

end Pool

-- ============================================================== the progress

/-- A few frames are scored by one scorer, and there are as many reports as
frames. -/
theorem score_reported {config : Config}
    (hfresh : Scorer.allocate config = .ok fresh) {paired : Nat}
    (hpaired : pairCount reference distorted config = .ok paired) :
    (score reference distorted fresh).reported.length = paired := by
  obtain ⟨-, -, hcount⟩ := pairCount_eq hpaired
  cases h : Check.firstError (sequenceChecks config reference distorted) with
  | some e =>
      rw [pairCount_eq_run, Check.run_eq_error h] at hpaired
      cases hpaired
  | none =>
      obtain ⟨frames, s', hscore, hindex, -⟩ := score_complete
        (Scorer.allocate_accounts hfresh) (Scorer.allocate_ready hfresh) h
      rw [hscore, hcount, ← List.length_map FrameScore.index, hindex,
        List.length_range]

/-- NO PROGRESS IS LOST: between workers that take their steps in any order,
the counter is at every moment the number of frames whose increments have
happened, no frame among them twice, and the numbers reported so far and
those not yet reported are the numbers up to the counter. So when all
workers are done, in whatever order they were, the numbers reported are
those from one to the number of pairs, each once. Fewer pairs than make
workers worth while are reported in that order. -/
theorem scoreParallelBy_progress (config : Config) (fresh : Scorer)
    (hfresh : Scorer.allocate config = .ok fresh)
    (reference distorted : RawVideo) (paired : Nat)
    (hpaired : pairCount reference distorted config = .ok paired) :
    let start := Pool.start fresh paired
    (∀ turns : List Nat,
      let pool := start.run reference distorted turns
      let counted := start.increments reference distorted turns
      pool.counter = counted.length ∧ counted.Nodup ∧
      (∀ index ∈ counted, index < paired) ∧
      (pool.progress.toList ++ pool.held).Perm (List.range' 1 pool.counter)) ∧
    (∀ turns : List Nat,
      (∀ i < start.workers.size, 3 * chunkSize ≤ turns.count i) →
      (start.run reference distorted turns).finished = true) ∧
    (∀ schedule : Pool → List Nat, parallelThreshold ≤ paired →
      (start.run reference distorted (schedule start)).finished = true →
      (scoreParallelBy schedule reference distorted config).progress.Perm
        (List.range' 1 paired)) ∧
    ∀ schedule : Pool → List Nat, paired < parallelThreshold →
      (scoreParallelBy schedule reference distorted config).progress
        = List.range' 1 paired := by
  intro start
  have hready := Scorer.allocate_ready hfresh
  have hframes (turns : List Nat) :
      (start.run reference distorted turns).frames = List.range paired :=
    (start.run_frames turns).trans (Pool.frames_start fresh paired)
  have hledger (turns : List Nat) :
      (start.run reference distorted turns).Ledger
        (start.increments reference distorted turns) :=
    Pool.run_ledger (Pool.ledger_start fresh paired) turns
  refine ⟨fun turns => ?_, fun turns => Pool.run_finished fresh paired,
    fun schedule hmany hfinished => ?_, fun schedule hfew => ?_⟩
  · obtain ⟨hnodup, hlt⟩ := (hledger turns).entries_distinct (hframes turns)
    exact ⟨(hledger turns).counter_eq, hnodup, hlt,
      (hledger turns).numbers_perm⟩
  · have hperm := (hledger (schedule start)).progress_perm
      (hframes (schedule start)) hfinished
      fun w => Pool.run_unfailed hready hpaired (schedule start)
    unfold scoreParallelBy
    simp only [hpaired, hfresh, if_neg (Nat.not_lt.2 hmany)]
    exact hperm
  · unfold scoreParallelBy
    simp only [hpaired, hfresh, if_pos hfew, score_reported hfresh hpaired]
    rw [List.range'_eq_map_range]
    simp [Nat.add_comm]

/-- Nine frames make two workers, which take turns; two frames make none. -/
theorem scoreParallelBy_progress_inTurn : ∃ fresh,
    Scorer.allocate Scorer.pixelConfig = .ok fresh ∧
    pairCount (pixelFrames 9) (pixelFrames 11) Scorer.pixelConfig = .ok 9 ∧
    pairCount (pixelFrames 2) (pixelFrames 3) Scorer.pixelConfig = .ok 2 ∧
    ((Pool.start fresh 9).run (pixelFrames 9) (pixelFrames 11) inTurn).finished
      = true ∧
    (scoreParallelBy (fun _ => inTurn) (pixelFrames 9) (pixelFrames 11)
      Scorer.pixelConfig).progress.Perm [1, 2, 3, 4, 5, 6, 7, 8, 9] ∧
    (scoreParallelBy (fun _ => inTurn) (pixelFrames 2) (pixelFrames 3)
      Scorer.pixelConfig).progress = [1, 2] := by
  obtain ⟨fresh, hfresh⟩ : ∃ s, Scorer.allocate Scorer.pixelConfig = .ok s :=
    ⟨_, rfl⟩
  have hnine : pairCount (pixelFrames 9) (pixelFrames 11) Scorer.pixelConfig
      = .ok 9 := rfl
  have htwo : pairCount (pixelFrames 2) (pixelFrames 3) Scorer.pixelConfig
      = .ok 2 := rfl
  obtain ⟨-, hcomplete, hmany, -⟩ :=
    scoreParallelBy_progress Scorer.pixelConfig fresh hfresh _ _ 9 hnine
  obtain ⟨-, -, -, hfew⟩ :=
    scoreParallelBy_progress Scorer.pixelConfig fresh hfresh _ _ 2 htwo
  have hfinished := hcomplete inTurn <| by
    intro i hi
    have hlt : i < 2 := hi
    match i with
    | 0 => decide
    | 1 => decide
  exact ⟨fresh, hfresh, hnine, htwo, hfinished,
    hmany (fun _ => inTurn) (by decide) hfinished,
    hfew (fun _ => inTurn) (by decide)⟩

end Sequence

end AdditiveDetail

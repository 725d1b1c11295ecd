/-
A scorer as a ledger.

# What a scorer accounts for

`Accounts` ties a scorer to the scores that it has given: their number is
its frame count, and its sum is the running sum of their values. A call
that gives a score enters it, a call that is refused enters nothing
(`Accounts.process`), and so it is along any sequence of calls
(`Accounts.behind`). The mean is then the mean of the scores given, bit
for bit; that the running sum starts at plus zero and `Binary.sum` at minus
zero makes no difference, since no score has a minus sign
(`PicturePair.score_unsigned`).

# Calls that are refused

A pair of planes is refused by the first of four checks that it does not
pass, and by nothing else (`Ready.process_error_iff`). The scorer is then
what it was, so the calls that are refused can be struck from a transcript
and the rest of it stands (`transcript_kept`).
-/
import AdditiveDetail.Proofs.Detail.Contribution
import AdditiveDetail.Proofs.Scoring.Checks
import AdditiveDetail.Proofs.Scoring.History

namespace AdditiveDetail

open Binary

-- ========================================================= signs of a score

theorem Detail.pooled_unsigned {d : Dims} (x : Detail d) (r : Region) :
    (x.pooled r).Unsigned := by
  apply sum_unsigned
  · exact List.cons_ne_nil _ _
  · intro term hterm
    obtain ⟨o, -, rfl⟩ := List.mem_map.1 hterm
    exact (Pooling.sumTerm_unsigned _).add (Pooling.areaTerm_unsigned _)

theorem Score.fold_unsigned {num den : Binary64} (hnum : num.Unsigned)
    (hden : den.Unsigned) (limit : Binary64)
    (scales : Vector ScaleScore Dims.scaleCount) :
    (Score.fold num den limit scales).value.Unsigned := by
  have hfloored {x : Binary64} (hx : x.Unsigned) :
      (if x.less limit then 0 else x : Binary64).Unsigned := by
    split
    · exact zero_unsigned
    · exact hx
  unfold fold
  by_cases hzero : (if den.less limit then 0 else den : Binary64).same 0
  · simp only [if_pos hzero]
    exact ofNat_unsigned 1
  · simp only [if_neg hzero]
    exact (hfloored hnum).div (hfloored hden)

/-- No score has a minus sign. -/
theorem PicturePair.score_unsigned (p : PicturePair) (f : FilterBank)
    (limit : Binary64) : (p.score f limit).value.Unsigned := by
  have hnum (k : Fin Dims.scaleCount) : (p.contribution f k).num.Unsigned :=
    Detail.pooled_unsigned _ _
  have hden (k : Fin Dims.scaleCount) : (p.contribution f k).den.Unsigned :=
    Detail.pooled_unsigned _ _
  unfold score
  apply Score.fold_unsigned
  · exact (((zero_unsigned.add (hnum _)).add (hnum _)).add (hnum _)).add (hnum _)
  · exact (((zero_unsigned.add (hden _)).add (hden _)).add (hden _)).add (hden _)

namespace Scorer

variable {config : Config} {s : Scorer}

-- ========================================================== a pair of planes

/-- A plane that is not one of the configured stream: its size is another, or
its depth, or it is not in the kind of buffer that the depth is stored in. -/
def Foreign (config : Config) (p : Plane) : Prop :=
  p.dims ≠ config.dims ∨ p.depth ≠ config.format.depth.bits
    ∨ p.samples.holds config.format.depth = false

theorem planeChecks_passed_iff {p : Plane} :
    (∀ c ∈ planeChecks config p, c.passed) ↔ ¬ Foreign config p := by
  simp [planeChecks, Foreign]

theorem pairChecks_passed_iff {reference distorted : Plane} :
    Check.firstError (pairChecks config reference distorted) = none
      ↔ ¬ (Foreign config reference ∨ Foreign config distorted) := by
  unfold pairChecks
  rw [Check.firstError_eq_none_iff, List.forall_mem_append,
    planeChecks_passed_iff, planeChecks_passed_iff, not_or]

/-- A pair that passes the checks is scored, and its score entered. -/
theorem Ready.process_passed (hs : s.Ready config) {reference distorted : Plane}
    (h : Check.firstError (pairChecks config reference distorted) = none) :
    ∃ (hdims : reference.dims = distorted.dims) (s' : Scorer),
      s.process reference distorted
        = (.ok (pairScore config reference distorted hdims), s') ∧
      s'.Ready config ∧ s'.frameCount = s.frameCount + 1 ∧
      s'.scoreSum
        = s.scoreSum + (pairScore config reference distorted hdims).value := by
  obtain rfl := hs.config_eq
  have hchecks := Check.run_eq_ok h
  rw [← checkPair_eq_run] at hchecks
  obtain ⟨hr, hd⟩ := checkPair_ok hchecks
  have hdims := (dims_of_checkPlane hr).trans (dims_of_checkPlane hd).symm
  obtain ⟨b, hb, hscore⟩ := score_accepted hs.filters_eq hr hd hdims
  have hprocess : s.process reference distorted
      = (.ok (pairScore s.config reference distorted hdims), { s with
          bench := b
          frameCount := s.frameCount + 1
          scoreSum := s.scoreSum
            + (pairScore s.config reference distorted hdims).value }) := by
    unfold Scorer.process
    rw [hscore]
  exact ⟨hdims, _, hprocess, ⟨rfl, hb⟩, rfl, rfl⟩

theorem Ready.process_failed (hs : s.Ready config) {reference distorted : Plane}
    {e : Error}
    (h : Check.firstError (pairChecks config reference distorted) = some e) :
    s.process reference distorted = (.error (.error e), s) := by
  obtain rfl := hs.config_eq
  apply process_refused
  rw [checkPair_eq_run]
  exact Check.run_eq_error h

/-- What fails is the first check that is not passed. -/
theorem Ready.process_error_iff (hs : s.Ready config)
    (reference distorted : Plane) (failure : Failure) :
    (s.process reference distorted).1 = .error failure
      ↔ ∃ e, failure = .error e ∧
        Check.firstError (pairChecks config reference distorted) = some e := by
  cases h : Check.firstError (pairChecks config reference distorted) with
  | none =>
      obtain ⟨hdims, s', hprocess, -⟩ := hs.process_passed h
      rw [hprocess]
      simp
  | some e =>
      rw [hs.process_failed h]
      simp [eq_comm]

/-- A pair of planes is refused exactly if one of them is foreign. -/
theorem Ready.process_refused_iff (hs : s.Ready config)
    (reference distorted : Plane) :
    (∃ failure, (s.process reference distorted).1 = .error failure)
      ↔ Foreign config reference ∨ Foreign config distorted := by
  rw [← not_iff_not, ← pairChecks_passed_iff]
  simp only [hs.process_error_iff]
  cases Check.firstError (pairChecks config reference distorted) <;> simp

/-- A call that fails leaves the scorer as it was. -/
theorem process_error {reference distorted : Plane} {failure : Failure}
    (h : (s.process reference distorted).1 = .error failure) :
    (s.process reference distorted).2 = s := by
  unfold process at h ⊢
  cases hscore : s.score reference distorted with
  | error e => rfl
  | ok x => rw [hscore] at h; cases h

-- ================================================================ the ledger

/-- The scorer has given these scores, in this order. -/
structure Accounts (config : Config) (scores : List Score) (s : Scorer) :
    Prop where
  ready : s.Ready config
  frameCount_eq : s.frameCount = scores.length
  scoreSum_eq : s.scoreSum = (scores.map Score.value).foldl (· + ·) 0
  unsigned : ∀ score ∈ scores, score.value.Unsigned

theorem allocate_accounts (h : allocate config = .ok s) :
    s.Accounts config [] := by
  obtain ⟨b, hb, rfl⟩ := allocate_eq h
  exact {
    ready := ⟨rfl, hb⟩
    frameCount_eq := rfl
    scoreSum_eq := rfl
    unsigned := fun score h => absurd h List.not_mem_nil }

variable {given : List Score}

theorem Accounts.average_eq (hs : s.Accounts config given) :
    s.average = Binary.mean (given.map Score.value) := by
  rw [mean_eq_running, List.length_map, ← hs.scoreSum_eq, ← hs.frameCount_eq]
  · rfl
  · intro x hx
    obtain ⟨score, hscore, rfl⟩ := List.mem_map.1 hx
    exact hs.unsigned score hscore

/-- A pair of planes enters the score that it is given, if it is given one. -/
theorem Accounts.process (hs : s.Accounts config given)
    (reference distorted : Plane) :
    (s.process reference distorted).2.Accounts config
      (given ++ (s.process reference distorted).1.toOption.toList) := by
  cases h : Check.firstError (pairChecks config reference distorted) with
  | some e =>
      rw [hs.ready.process_failed h]
      simpa [Except.toOption] using hs
  | none =>
      obtain ⟨hdims, s', hprocess, hready, hcount, hsum⟩ :=
        hs.ready.process_passed h
      rw [hprocess]
      refine ⟨hready, ?_, ?_, ?_⟩
      · rw [hcount, hs.frameCount_eq]
        simp [Except.toOption]
      · rw [hsum, hs.scoreSum_eq]
        simp [Except.toOption]
      · intro score hscore
        rcases List.mem_append.1 hscore with hold | hnew
        · exact hs.unsigned score hold
        · simp only [Except.toOption, Option.toList, List.mem_singleton] at hnew
          rw [hnew]
          exact PicturePair.score_unsigned _ _ _

-- =============================================================== transcripts

/-- What may be asked of a scorer. -/
inductive Call where
  | process (reference distorted : Plane)
  | average

/-- What it answers. -/
inductive Answer where
  | scored (outcome : Except Failure Score)
  | mean (value : Binary64)

namespace Answer

/-- The score that was given, if one was. -/
def scores : Answer → List Score
  | .scored outcome => outcome.toOption.toList
  | .mean _ => []

def isRefusal : Answer → Bool
  | .scored (.error _) => true
  | _ => false

end Answer

/-- The answer to a call, and the scorer behind it. -/
def answer (s : Scorer) : Call → Answer × Scorer
  | .process reference distorted =>
      let (outcome, s') := s.process reference distorted
      (.scored outcome, s')
  | .average => (.mean s.average, s)

/-- A sequence of calls, each with its answer. -/
def transcript (s : Scorer) : List Call → List (Call × Answer)
  | [] => []
  | call :: rest =>
      (call, (s.answer call).1) :: (s.answer call).2.transcript rest

/-- The scorer behind a sequence of calls. -/
def behind (s : Scorer) (calls : List Call) : Scorer :=
  calls.foldl (fun s call => (s.answer call).2) s

/-- The scores that were given, in their order. -/
def scoresIn (t : List (Call × Answer)) : List Score :=
  t.flatMap fun x => x.2.scores

theorem Accounts.answer (hs : s.Accounts config given) (call : Call) :
    (s.answer call).2.Accounts config (given ++ (s.answer call).1.scores) := by
  cases call with
  | process reference distorted => exact hs.process reference distorted
  | average =>
      show s.Accounts config (given ++ [])
      rwa [List.append_nil]

/-- Along any calls a scorer accounts for the scores that it gives. -/
theorem Accounts.behind (hs : s.Accounts config given) (calls : List Call) :
    (s.behind calls).Accounts config
      (given ++ scoresIn (s.transcript calls)) := by
  induction calls generalizing s given with
  | nil =>
      show s.Accounts config (given ++ [])
      rwa [List.append_nil]
  | cons call rest ih =>
      have hrest := ih (hs.answer call)
      rw [List.append_assoc] at hrest
      exact hrest

/-- Wherever the mean is asked for, it is that of the scores given before. -/
theorem Accounts.transcript_average (hs : s.Accounts config given)
    {calls : List Call} {i : Nat} {a : Answer}
    (h : (s.transcript calls)[i]? = some (.average, a)) :
    a = .mean (Binary.mean ((given
      ++ scoresIn ((s.transcript calls).take i)).map Score.value)) := by
  induction calls generalizing s given i with
  | nil => cases h
  | cons call rest ih =>
      cases i with
      | zero =>
          obtain ⟨rfl, rfl⟩ := Prod.mk.inj (Option.some.inj h)
          rw [List.take_zero, scoresIn, List.flatMap_nil, List.append_nil,
            ← hs.average_eq]
          rfl
      | succ i =>
          have hrest := ih (hs.answer call) h
          rw [List.append_assoc] at hrest
          exact hrest

theorem answer_refused {call : Call} (h : (s.answer call).1.isRefusal) :
    (s.answer call).2 = s := by
  cases call with
  | average => rfl
  | process reference distorted =>
      cases hprocess : (s.process reference distorted).1 with
      | error failure => exact process_error hprocess
      | ok score =>
          simp only [Scorer.answer, hprocess] at h
          cases h

/-- The calls of a transcript that were not refused. -/
def kept (t : List (Call × Answer)) : List (Call × Answer) :=
  t.filter fun x => !x.2.isRefusal

theorem transcript_cons (s : Scorer) (call : Call) (rest : List Call) :
    s.transcript (call :: rest)
      = (call, (s.answer call).1) :: (s.answer call).2.transcript rest := rfl

theorem behind_cons (s : Scorer) (call : Call) (rest : List Call) :
    s.behind (call :: rest) = (s.answer call).2.behind rest := rfl

theorem kept_cons (x : Call × Answer) (t : List (Call × Answer)) :
    kept (x :: t) = if x.2.isRefusal then kept t else x :: kept t := by
  unfold kept
  cases h : x.2.isRefusal <;> simp [h]

/-- Refused calls may be struck: without them the other calls have the same
answers, and leave the same scorer. -/
theorem transcript_kept (s : Scorer) (calls : List Call) :
    s.transcript ((kept (s.transcript calls)).map Prod.fst)
        = kept (s.transcript calls) ∧
      s.behind ((kept (s.transcript calls)).map Prod.fst)
        = s.behind calls := by
  induction calls generalizing s with
  | nil => exact ⟨rfl, rfl⟩
  | cons call rest ih =>
      obtain ⟨htranscript, hbehind⟩ := ih (s.answer call).2
      rw [behind_cons, ← hbehind, transcript_cons, kept_cons]
      by_cases h : (s.answer call).1.isRefusal
      · rw [if_pos h]
        rw [answer_refused h] at htranscript ⊢
        exact ⟨htranscript, rfl⟩
      · rw [if_neg h, List.map_cons, transcript_cons, htranscript, behind_cons]
        exact ⟨rfl, rfl⟩

-- ================================================================== lifetime

/-- LIFETIME: behind any sequence of calls a pair is refused exactly if one of
its planes is foreign, by the first check that is not passed, and a refusal
leaves the scorer as it was. The refused calls could as well not have been
made. The frame count is the number of scores given, and the mean, where it
is asked for between calls and at the end, is that of the scores given so
far. -/
theorem behind_calls (config : Config) (fresh : Scorer)
    (hfresh : allocate config = .ok fresh) (calls : List Call) :
    (∀ reference distorted : Plane,
      ((∃ failure, ((fresh.behind calls).process reference distorted).1
          = .error failure)
        ↔ Foreign config reference ∨ Foreign config distorted) ∧
      ∀ failure, ((fresh.behind calls).process reference distorted).1
          = .error failure →
        (∃ e, failure = .error e ∧
          Check.firstError (pairChecks config reference distorted) = some e) ∧
        ((fresh.behind calls).process reference distorted).2
          = fresh.behind calls) ∧
    (fresh.transcript ((kept (fresh.transcript calls)).map Prod.fst)
        = kept (fresh.transcript calls) ∧
      fresh.behind ((kept (fresh.transcript calls)).map Prod.fst)
        = fresh.behind calls) ∧
    (∀ (i : Nat) (a : Answer),
      (fresh.transcript calls)[i]? = some (.average, a) →
      a = .mean (Binary.mean
        ((scoresIn ((fresh.transcript calls).take i)).map Score.value))) ∧
    (fresh.behind calls).frameCount
      = (scoresIn (fresh.transcript calls)).length ∧
    (fresh.behind calls).average
      = Binary.mean ((scoresIn (fresh.transcript calls)).map Score.value) ∧
    (fresh.behind calls).finish
      = Binary.mean ((scoresIn (fresh.transcript calls)).map Score.value) := by
  have haccounts := allocate_accounts hfresh
  have hbehind := haccounts.behind calls
  rw [List.nil_append] at hbehind
  refine ⟨fun reference distorted => ⟨?_, fun failure h => ⟨?_, ?_⟩⟩,
    fresh.transcript_kept calls, fun i a h => haccounts.transcript_average h,
    hbehind.frameCount_eq, hbehind.average_eq, hbehind.average_eq⟩
  · exact hbehind.ready.process_refused_iff reference distorted
  · exact (hbehind.ready.process_error_iff reference distorted failure).1 h
  · exact process_error h

/-- A pair refused for the depth of its distorted plane, and one accepted,
each followed by a question for the mean. -/
def pixelCalls : List Call :=
  [.process (pixelPlane 7) { pixelPlane 3 with depth := 10 }, .average,
    .process (pixelPlane 7) (pixelPlane 9), .average]

theorem behind_calls_pixel : ∃ fresh, allocate pixelConfig = .ok fresh ∧
    (∃ failure, ((fresh.behind pixelCalls).process (pixelPlane 1)
      { pixelPlane 3 with depth := 10 }).1 = .error failure) ∧
    (fresh.behind pixelCalls).frameCount
      = (scoresIn (fresh.transcript pixelCalls)).length ∧
    (fresh.behind pixelCalls).average
      = Binary.mean ((scoresIn (fresh.transcript pixelCalls)).map Score.value) := by
  obtain ⟨fresh, hfresh⟩ : ∃ s, allocate pixelConfig = .ok s := ⟨_, rfl⟩
  obtain ⟨hpair, -, -, hcount, haverage, -⟩ :=
    behind_calls pixelConfig fresh hfresh pixelCalls
  refine ⟨fresh, hfresh, ?_, hcount, haverage⟩
  exact (hpair (pixelPlane 1) { pixelPlane 3 with depth := 10 }).1.2
    (.inr (.inr (.inl (by decide))))

end Scorer

end AdditiveDetail

/-
A scorer forgets what it has seen.

# What is left of the past

Of everything that a scorer holds, two things enter a score: the
configuration and the filters. `Ready` says that they are what a new
scorer has; every call keeps it, whether the call is accepted or refused
(`Ready.process`). The buffers are left as the last call needed them, and
a score reads nothing of that: `Ready.process_accepted` gives it as a
function of the two planes.

# Any history

So a scorer that has seen any sequence of calls scores a pair as a new
one does.
-/
import AdditiveDetail.Proofs.Scoring.Pictures
import AdditiveDetail.Scoring.Scorer

namespace AdditiveDetail

-- ================================================================ the planes

/-- Two planes of one size, as pictures. -/
def PicturePair.ofPlanes (reference distorted : Plane)
    (h : reference.dims = distorted.dims) : PicturePair where
  dims := reference.dims
  nonempty := reference.nonempty
  reference i j := reference.sample i j
  distorted i j :=
    distorted.sample (i.cast (congrArg Dims.height h))
      (j.cast (congrArg Dims.width h))

theorem PicturePair.distortedImage_ofPlanes {reference distorted : Plane}
    (h : reference.dims = distorted.dims) :
    (ofPlanes reference distorted h).distortedImage = distorted.image := by
  obtain ⟨samples, dims, stride, depth, hne, hle, henough⟩ := distorted
  obtain rfl : reference.dims = dims := h
  rfl

namespace Scorer

theorem dims_of_checkPlane {config : Config} {p : Plane}
    (h : checkPlane config p = .ok ()) : p.dims = config.dims := by
  unfold checkPlane at h
  by_cases hd : p.dims = config.dims
  · exact hd
  · rw [if_pos hd] at h
    cases h

-- ================================================================= readiness

/-- A scorer of the configuration, with the filters that scoring uses. -/
structure Ready (config : Config) (s : Scorer) : Prop where
  config_eq : s.config = config
  filters_eq : s.bench.transform.filters = FilterBank.daubechies

/-- What a new scorer holds, apart from its buffers. -/
theorem allocate_eq {config : Config} {s : Scorer}
    (h : allocate config = .ok s) :
    ∃ b : Bench config.dims.width config.dims.half,
      b.transform.filters = FilterBank.daubechies ∧
      s = { config, bench := b, frameCount := 0, scoreSum := 0 } := by
  unfold allocate at h
  cases hv : config.validate with
  | error e => rw [hv] at h; cases h
  | ok =>
      cases ha : Arena.allocate config.dims.half with
      | error e => rw [hv, ha] at h; cases h
      | ok arena =>
          unfold Transform.allocate at h
          cases hr : Allocation.checkRow config.dims.width with
          | error e => rw [hv, ha, hr] at h; cases h
          | ok =>
              rw [hv, ha, hr] at h
              cases h
              exact ⟨_, rfl, rfl⟩

/-- A new scorer is ready. -/
theorem allocate_ready {config : Config} {s : Scorer}
    (h : allocate config = .ok s) : s.Ready config := by
  obtain ⟨b, hb, rfl⟩ := allocate_eq h
  exact ⟨rfl, hb⟩

theorem checkGrid_ok {d : Dims} (h : d.Nonempty) (harea : d.area ≤ 2 ^ 31) :
    Allocation.checkGrid d = .ok () := by
  have hw := h.width_pos
  have hh := h.height_pos
  have hmax : max 1 d.width * max 1 d.height = d.area := by
    rw [Nat.max_eq_right hw, Nat.max_eq_right hh, Dims.area]
  unfold Allocation.checkGrid Allocation.checkRow
  rw [hmax, if_neg (by unfold Allocation.maxWord; omega),
    if_pos (show 2 * d.area ≤ Allocation.maxBytes by
      unfold Allocation.maxBytes; omega),
    if_pos (show d.area ≤ Allocation.maxBytes by
      unfold Allocation.maxBytes; omega)]
  rfl

/-- The buffers for a picture of at most `2 ^ 31` samples are there. -/
theorem exists_allocate {config : Config} (h : config.dims.Nonempty)
    (harea : config.dims.area ≤ 2 ^ 31) : ∃ s, allocate config = .ok s := by
  have hhalf := Dims.half_le h
  have hgrid : Allocation.checkGrid config.dims.half = .ok () :=
    checkGrid_ok config.dims.half_nonempty (Nat.le_trans
      (Nat.mul_le_mul (Dims.width_le hhalf) (Dims.height_le hhalf)) harea)
  have hrow : Allocation.checkRow config.dims.width = .ok () := by
    have : config.dims.width ≤ config.dims.area :=
      Nat.le_mul_of_pos_right _ h.height_pos
    unfold Allocation.checkRow
    rw [if_pos (show 2 * config.dims.width ≤ Allocation.maxBytes by
      unfold Allocation.maxBytes; omega)]
  have harena : ∃ a, Arena.allocate config.dims.half = .ok a := by
    unfold Arena.allocate Grid.allocate BandSet.allocate
    rw [hgrid]
    exact ⟨_, rfl⟩
  obtain ⟨arena, harena⟩ := harena
  unfold allocate Config.validate Transform.allocate
  rw [if_pos h, harena, hrow]
  exact ⟨_, rfl⟩

/-- The score of two planes of one size. -/
def pairScore (config : Config) (reference distorted : Plane)
    (h : reference.dims = distorted.dims) : Score :=
  (PicturePair.ofPlanes reference distorted h).score FilterBank.daubechies
    config.noiseFloor

/-- A pair that passes the checks is scored in whatever buffers there are,
and its score is that of the two pictures. -/
theorem score_accepted {s : Scorer}
    (hfilters : s.bench.transform.filters = FilterBank.daubechies)
    {reference distorted : Plane}
    (hr : checkPlane s.config reference = .ok ())
    (hd : checkPlane s.config distorted = .ok ())
    (h : reference.dims = distorted.dims) :
    ∃ b : Bench s.config.dims.width s.config.dims.half,
      b.transform.filters = FilterBank.daubechies ∧
      s.score reference distorted
        = .ok (pairScore s.config reference distorted h, { s with
            bench := b
            frameCount := s.frameCount + 1
            scoreSum := s.scoreSum
              + (pairScore s.config reference distorted h).value }) := by
  have hdims := dims_of_checkPlane hr
  obtain ⟨b, hb, hkept⟩ := s.bench.compute_eq
    (PicturePair.ofPlanes reference distorted h)
    (Nat.le_of_eq (congrArg Dims.width hdims))
    (hdims ▸ Dims.le_refl _) s.config.noiseFloor
  rw [PicturePair.distortedImage_ofPlanes, hfilters] at hb
  refine ⟨b, hkept.trans hfilters, ?_⟩
  unfold score
  rw [hr, hd]
  show (do
    let x ← Failure.ofFault (s.bench.compute
      (PicturePair.ofPlanes reference distorted h).referenceImage
      distorted.image s.config.noiseFloor)
    _) = _
  rw [hb]
  rfl

theorem Ready.process_accepted {config : Config} {s : Scorer}
    (hs : s.Ready config) {reference distorted : Plane}
    (hr : checkPlane config reference = .ok ())
    (hd : checkPlane config distorted = .ok ())
    (h : reference.dims = distorted.dims) :
    ∃ s', s.process reference distorted
        = (.ok (pairScore config reference distorted h), s') ∧
      s'.Ready config := by
  obtain rfl := hs.config_eq
  obtain ⟨b, hb, hscore⟩ := score_accepted hs.filters_eq hr hd h
  unfold process
  rw [hscore]
  exact ⟨_, rfl, rfl, hb⟩

/-- Behind each scale of an accepted pair the buffers of a ready scorer are
as the scale of the two pictures leaves them. -/
theorem Ready.throughScale_scored {config : Config} {s : Scorer}
    (hs : s.Ready config) {reference distorted : Plane}
    (hr : checkPlane config reference = .ok ())
    (h : reference.dims = distorted.dims) {k : Nat}
    (hk : k < Dims.scaleCount) :
    ∃ b, s.bench.throughScale reference.image distorted.image k
        = .ok ((PicturePair.ofPlanes reference distorted h).contribution
            FilterBank.daubechies ⟨k, hk⟩, b) ∧
      b.Scored ((PicturePair.ofPlanes reference distorted h).atScale
        FilterBank.daubechies k) FilterBank.daubechies ⟨k, hk⟩ := by
  obtain rfl := hs.config_eq
  have hdims := dims_of_checkPlane hr
  have hscored := s.bench.throughScale_scored
    (PicturePair.ofPlanes reference distorted h)
    (Nat.le_of_eq (congrArg Dims.width hdims))
    (hdims ▸ Dims.le_refl _) hk
  rwa [PicturePair.distortedImage_ofPlanes, hs.filters_eq] at hscored

/-- A pair that fails a check raises what the check raises, and leaves the
scorer as it was. -/
theorem process_refused {s : Scorer} {reference distorted : Plane} {e : Error}
    (h : (do
      checkPlane s.config reference
      checkPlane s.config distorted) = .error e) :
    s.process reference distorted = (.error (.error e), s) := by
  unfold process score
  cases hr : checkPlane s.config reference with
  | error e' =>
      rw [hr] at h
      cases h
      rfl
  | ok =>
      rw [hr, ok_bind] at h
      rw [h]
      rfl

theorem checkPair_ok {config : Config} {reference distorted : Plane}
    (h : (do
      checkPlane config reference
      checkPlane config distorted) = .ok ()) :
    checkPlane config reference = .ok () ∧
      checkPlane config distorted = .ok () := by
  cases hr : checkPlane config reference with
  | error e => rw [hr] at h; cases h
  | ok =>
      rw [hr, ok_bind] at h
      exact ⟨rfl, h⟩

/-- Every call keeps a scorer ready. -/
theorem Ready.process {config : Config} {s : Scorer} (hs : s.Ready config)
    (reference distorted : Plane) :
    (s.process reference distorted).2.Ready config := by
  obtain rfl := hs.config_eq
  cases hchecks : (do
      checkPlane s.config reference
      checkPlane s.config distorted : Except Error Unit) with
  | error e =>
      rw [process_refused hchecks]
      exact hs
  | ok =>
      obtain ⟨hr, hd⟩ := checkPair_ok hchecks
      have hdims := (dims_of_checkPlane hr).trans (dims_of_checkPlane hd).symm
      obtain ⟨s', hprocess, hs'⟩ := hs.process_accepted hr hd hdims
      rw [hprocess]
      exact hs'

-- ================================================================= histories

/-- A scorer behind a sequence of calls. -/
def after (s : Scorer) (history : List (Plane × Plane)) : Scorer :=
  history.foldl (fun s pair => (s.process pair.1 pair.2).2) s

theorem Ready.after {config : Config} {s : Scorer} (hs : s.Ready config)
    (history : List (Plane × Plane)) : (s.after history).Ready config := by
  induction history generalizing s with
  | nil => exact hs
  | cons pair rest ih => exact ih (hs.process pair.1 pair.2)

/-- HISTORY INDEPENDENCE: whatever calls a scorer has seen, it scores an
accepted pair, and scores it as a new scorer of its configuration does.
The same holds one layer below, of any two sets of buffers and scratch
rows: what they hold does not enter the result. -/
theorem process_after (config : Config) (fresh : Scorer)
    (hfresh : allocate config = .ok fresh) (history : List (Plane × Plane))
    (reference distorted : Plane)
    (hr : checkPlane config reference = .ok ())
    (hd : checkPlane config distorted = .ok ()) :
    (∃ score : Score, (fresh.process reference distorted).1 = .ok score ∧
      ((fresh.after history).process reference distorted).1 = .ok score) ∧
    ∀ b b' : Bench config.dims.width config.dims.half,
      b.transform.filters = b'.transform.filters →
      ∃ score : Score,
        (b.compute reference.image distorted.image config.noiseFloor).map
          Prod.fst = .ok score ∧
        (b'.compute reference.image distorted.image config.noiseFloor).map
          Prod.fst = .ok score := by
  have hdims := dims_of_checkPlane hr
  have h := hdims.trans (dims_of_checkPlane hd).symm
  have hready := allocate_ready hfresh
  constructor
  · obtain ⟨s₁, h₁, -⟩ := hready.process_accepted hr hd h
    obtain ⟨s₂, h₂, -⟩ := (hready.after history).process_accepted hr hd h
    exact ⟨_, congrArg Prod.fst h₁, congrArg Prod.fst h₂⟩
  · intro b b' hfilters
    have hcompute (b : Bench config.dims.width config.dims.half) :=
      b.compute_eq (PicturePair.ofPlanes reference distorted h)
        (Nat.le_of_eq (congrArg Dims.width hdims))
        (hdims ▸ Dims.le_refl _) config.noiseFloor
    obtain ⟨c, hc, -⟩ := hcompute b
    obtain ⟨c', hc', -⟩ := hcompute b'
    rw [PicturePair.distortedImage_ofPlanes] at hc hc'
    rw [← hfilters] at hc'
    exact ⟨_, congrArg (Except.map Prod.fst) hc,
      congrArg (Except.map Prod.fst) hc'⟩

/-- Pictures of a single sample. -/
def pixelConfig : Config := ⟨⟨1, 1⟩, default⟩

theorem pixelConfig_nonempty : pixelConfig.dims.Nonempty := by decide

/-- A picture of a single sample. -/
def pixelPlane (x : UInt8) : Plane where
  samples := .bytes #[x]
  dims := ⟨1, 1⟩
  stride := 1
  depth := 8
  nonempty := pixelConfig_nonempty
  width_le_stride := by decide
  enough := Nat.le_refl 1

/-- One accepted call and one that is refused for its depth. -/
def pixelHistory : List (Plane × Plane) :=
  [(pixelPlane 7, pixelPlane 9),
    ({ pixelPlane 3 with depth := 10 }, pixelPlane 3)]

/-- Pictures of three columns and five rows. Their scales have bands of two
columns and three rows, of two rows, and twice of a single sample. -/
def oddConfig : Config := ⟨⟨3, 5⟩, default⟩

theorem oddConfig_nonempty : oddConfig.dims.Nonempty := by decide

/-- A picture with edges along its rows, its columns and its diagonals. The
last sample of each row of its buffer is no part of it. -/
def oddPlane (x y : UInt8) : Plane where
  samples := .bytes #[
    x, y, y, 1,
    x, x, y, 2,
    y, x, x, 3,
    y, y, x, 4,
    x, y, x]
  dims := ⟨3, 5⟩
  stride := 4
  depth := 8
  nonempty := oddConfig_nonempty
  width_le_stride := by decide
  enough := Nat.le_refl 19

/-- Two accepted calls, and between them one that is refused. -/
def oddHistory : List (Plane × Plane) :=
  [(oddPlane 7 90, oddPlane 90 7), (oddPlane 7 90, pixelPlane 3),
    (oddPlane 0 255, oddPlane 1 255)]

theorem process_after_oddHistory : ∃ (fresh : Scorer) (score : Score),
    allocate oddConfig = .ok fresh ∧
      (fresh.process (oddPlane 1 200) (oddPlane 5 180)).1 = .ok score ∧
      ((fresh.after oddHistory).process (oddPlane 1 200)
        (oddPlane 5 180)).1 = .ok score := by
  obtain ⟨fresh, hfresh⟩ : ∃ s, allocate oddConfig = .ok s := ⟨_, rfl⟩
  obtain ⟨⟨score, h₁, h₂⟩, -⟩ := process_after oddConfig fresh hfresh
    oddHistory (oddPlane 1 200) (oddPlane 5 180) rfl rfl
  exact ⟨fresh, score, hfresh, h₁, h₂⟩

end Scorer

end AdditiveDetail

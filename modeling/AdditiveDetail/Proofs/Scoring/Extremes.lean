/-
The two ends of the scale.

# Nothing lost

A picture against itself scores one, whatever the scorer has seen before:
the pair has its detail in common at every scale, and the sums and the
noise floor do the same to both sides (`PicturePair.Same.score_eq`).

# Everything lost

A picture against a flat one keeps no detail. The score is what the terms
of the areas leave of a quotient, the same for every flat picture, and it
stays below one as long as anything of the picture counts
(`PicturePair.Lost.num_lt`).
-/
import AdditiveDetail.Proofs.Scoring.Flat

namespace AdditiveDetail

open Binary

namespace Scorer

-- ================================================================== identity

/-- IDENTITY: a plane scored against itself, by a scorer with any history,
gives a numerator that is the denominator, in total and at every scale,
and a score of one; at every scale all detail is restored, and nothing is
added or masked. A video scored against itself gives one for every frame,
and a mean of one. -/
theorem process_self (config : Config) (hdims : config.dims.Nonempty)
    (harea : config.dims.width * config.dims.height ≤ 2 ^ 31) :
    ∃ fresh, allocate config = .ok fresh ∧
    ∀ history : List (Plane × Plane),
    (∀ p : Plane, checkPlane config p = .ok () →
      (∃ score, ((fresh.after history).process p p).1 = .ok score ∧
        score.num = score.den ∧
        (∀ k : Fin Dims.scaleCount, score.scales[k].num = score.scales[k].den) ∧
        score.value = .ofNat 1) ∧
      ∀ k < Dims.scaleCount, ∃ contribution b,
        (fresh.after history).bench.throughScale p.image p.image k
          = .ok (contribution, b) ∧
        b.Undistorted (config.dims.atScale k)) ∧
    ∀ v : RawVideo, v.dims = config.dims →
      v.format.depth = config.format.depth →
      0 < v.frameCount → v.frameCount < 2 ^ 53 →
      ∃ summary,
        (Sequence.score v v (fresh.after history)).outcome = .ok summary ∧
        summary.frames.length = v.frameCount ∧
        (∀ frame ∈ summary.frames, frame.score.value = .ofNat 1) ∧
        summary.average = .ofNat 1 := by
  obtain ⟨fresh, hfresh⟩ := exists_allocate hdims harea
  refine ⟨fresh, hfresh, fun history => ?_⟩
  have hready := (allocate_ready hfresh).after history
  refine ⟨fun p hp => ⟨?_, fun k hk => hready.throughScale_self hp hk⟩,
    fun v hdims hdepth hpos hlt =>
      Sequence.score_self hready harea hdims hdepth hpos hlt⟩
  obtain ⟨s', hprocess, -⟩ := hready.process_accepted hp hp rfl
  obtain ⟨htotal, hscales, hvalue⟩ := pairScore_self harea hp
  exact ⟨_, congrArg Prod.fst hprocess, htotal,
    fun k => hscales _ (Vector.getElem_mem k.isLt), hvalue⟩

/-- Two frames of three columns and five rows, with two planes of chroma of
two columns and three rows each. -/
def oddVideo : RawVideo where
  bytes := Array.ofFn fun i : Fin 54 => .ofNat (i * i)
  dims := ⟨3, 5⟩
  format := default
  nonempty := oddConfig_nonempty
  whole := by
    rw [Array.size_ofFn]
    rfl

theorem process_self_odd : ∃ fresh, allocate oddConfig = .ok fresh ∧
    (∃ score, ((fresh.after oddHistory).process (oddPlane 9 60)
        (oddPlane 9 60)).1 = .ok score ∧ score.value = .ofNat 1) ∧
      ∃ summary, (Sequence.score oddVideo oddVideo fresh).outcome
        = .ok summary ∧ summary.average = .ofNat 1 := by
  obtain ⟨fresh, hfresh, h⟩ := process_self oddConfig (by decide) (by decide)
  obtain ⟨score, hscore, -, -, hvalue⟩ :=
    ((h oddHistory).1 (oddPlane 9 60) rfl).1
  have hframes : oddVideo.frameCount = 2 := by
    unfold RawVideo.frameCount
    rw [show oddVideo.bytes.size = 54 from Array.size_ofFn]
    rfl
  obtain ⟨summary, hsummary, -, -, haverage⟩ := (h []).2 oddVideo rfl rfl
    (by omega) (by omega)
  exact ⟨fresh, hfresh, ⟨score, hscore, hvalue⟩, summary, hsummary, haverage⟩

-- ============================================================= flat pictures

/-- FLAT PICTURES: a scorer with any history scores an accepted plane
against a flat one, and the flat one against the plane, with numerator and
denominator exchanged, in total and at every scale. The first score is that
of any other flat plane. Its numerator has three times the ceiling of the
cube root of a thirty-second of the region's area from each scale, and
nothing else; it is at most one, and less than one when anything of the
plane is visible inside the region of any scale.

The ceiling is that of the exact root because `Binary.cbrt` is taken to be
correctly rounded, which no standard asks of it. -/
theorem process_flat (config : Config) (hdims : config.dims.Nonempty)
    (harea : config.dims.width * config.dims.height ≤ 2 ^ 31) :
    ∃ fresh, allocate config = .ok fresh ∧
    ∀ (history : List (Plane × Plane)) (a z : Plane),
    checkPlane config a = .ok () → checkPlane config z = .ok () → z.Flat →
    ∃ lost found : Score,
      ((fresh.after history).process a z).1 = .ok lost ∧
      ((fresh.after history).process z a).1 = .ok found ∧
      found.num = lost.den ∧ found.den = lost.num ∧
      (∀ k : Fin Dims.scaleCount, found.scales[k] = lost.scales[k].swap) ∧
      (∀ z' : Plane, checkPlane config z' = .ok () → z'.Flat →
        ((fresh.after history).process a z').1 = .ok lost) ∧
      (∃ n : Fin Dims.scaleCount → ℕ,
        (∀ k : Fin Dims.scaleCount, ∃ r,
          Pooling.pooledRegion (config.dims.atScale k) Pooling.borderFactor
            = .ok r ∧
          Pooling.IsAreaRoot (n k) r.area ∧
          lost.scales[k].num.Denotes (3 * n k : ℕ)) ∧
        lost.num.Denotes (∑ k, 3 * n k : ℕ)) ∧
      lost.value.atMost (.ofNat 1) ∧
      ∀ k < Dims.scaleCount, ∃ contribution b r,
        (fresh.after history).bench.throughScale a.image z.image k
          = .ok (contribution, b) ∧
        Pooling.pooledRegion b.arena.visibleReference.dims
          Pooling.borderFactor = .ok r ∧
        ∀ (o : Orientation) (i : Fin b.arena.visibleReference.dims.height)
          (j : Fin b.arena.visibleReference.dims.width), r.Contains i j →
          b.arena.visibleReference.detail o i j ≠ 0 →
          lost.value.less (.ofNat 1) := by
  obtain ⟨fresh, hfresh⟩ := exists_allocate hdims harea
  refine ⟨fresh, hfresh, fun history a z ha hz hflat => ?_⟩
  have hready := (allocate_ready hfresh).after history
  have hsize := dims_of_checkPlane ha
  have h := hsize.trans (dims_of_checkPlane hz).symm
  have hf := FilterBank.daubechies_cancels
  have hlost := hflat.lost h
  have hparea : (PicturePair.ofPlanes a z h).dims.area ≤ 2 ^ 31 := by
    show a.dims.area ≤ 2 ^ 31
    rw [hsize]
    exact harea
  obtain ⟨l, hlimit, hl⟩ := Config.noiseFloor_denotes harea
  obtain ⟨num, den, hcontributes⟩ :=
    (PicturePair.ofPlanes a z h).exists_contributes FilterBank.daubechies hparea
  have htotals := hcontributes.totals hlimit (hl.trans (by norm_num))
  have hle := hlost.num_le hf hcontributes hparea
  obtain ⟨hnum, hden, hscales⟩ := hlost.swap_score hf config.noiseFloor
  rw [← PicturePair.ofPlanes_swap] at hnum hden hscales
  obtain ⟨_, hprocess, -⟩ := hready.process_accepted ha hz h
  obtain ⟨_, hprocess', -⟩ := hready.process_accepted hz ha h.symm
  refine ⟨_, _, congrArg Prod.fst hprocess, congrArg Prod.fst hprocess', hnum,
    hden, fun k => ?_, ?_, ?_, htotals.value_atMost_one hle, ?_⟩
  · have hscale := congrArg (fun scales => scales[k]) hscales
    exact hscale.trans (Vector.getElem_map ..)
  · intro z' hz' hflat'
    have h' := hsize.trans (dims_of_checkPlane hz').symm
    obtain ⟨_, hother, -⟩ := hready.process_accepted ha hz' h'
    rw [hother]
    exact congrArg Except.ok
      (hlost.score_eq hf (hflat'.lost h') ⟨_, rfl⟩ config.noiseFloor).symm
  · choose n hroot hnumEq using hlost.num_eq hf hcontributes hparea
    have hdims : (PicturePair.ofPlanes a z h).dims = config.dims := hsize
    refine ⟨n, fun k => ⟨_, Pooling.pooledRegion_eq _, ?_, ?_⟩, ?_⟩
    · rw [← hdims]
      exact hroot k
    · rw [← hnumEq k]
      exact htotals.scale_num k
    · simp only [← hnumEq]
      exact htotals.num_denotes
  · intro k hk
    obtain ⟨b, hb, hscored⟩ := hready.throughScale_scored ha h hk
    refine ⟨_, b, _, hb, Pooling.pooledRegion_eq _, fun o i j hij hne => ?_⟩
    obtain ⟨i', j', hi, hj, hx⟩ := hscored.visibleReference.exists_ne_zero hne
    rw [← hi, ← hj, hscored.visibleReference.dims_eq] at hij
    exact htotals.value_less_one hle
      (hlost.num_lt hf hcontributes hparea (k := ⟨k, hk⟩) hij hx)

/-- Pictures of two samples side by side. -/
def pairConfig : Config := ⟨⟨2, 1⟩, default⟩

/-- A picture of two samples side by side. -/
def pairPlane (x y : UInt8) : Plane where
  samples := .bytes #[x, y]
  dims := ⟨2, 1⟩
  stride := 2
  depth := 8
  nonempty := by decide
  width_le_stride := by decide
  enough := Nat.le_refl 2

theorem process_flat_pair : ∃ fresh, allocate pairConfig = .ok fresh ∧
    (pairPlane 9 9).Flat ∧
    ∃ lost found : Score,
      ((fresh.after []).process (pairPlane 0 255) (pairPlane 9 9)).1
        = .ok lost ∧
      ((fresh.after []).process (pairPlane 9 9) (pairPlane 0 255)).1
        = .ok found ∧
      found.num = lost.den ∧ found.den = lost.num ∧
      lost.value.atMost (.ofNat 1) := by
  have hflat : (pairPlane 9 9).Flat := by
    refine ⟨9, fun i j => ?_⟩
    obtain rfl : i = (0 : Fin 1) := Fin.fin_one_eq_zero i
    revert j
    decide
  obtain ⟨fresh, hfresh, h⟩ := process_flat pairConfig (by decide) (by decide)
  obtain ⟨lost, found, hlost, hfound, hnum, hden, -, -, -, hle, -⟩ :=
    h [] (pairPlane 0 255) (pairPlane 9 9) rfl rfl hflat
  exact ⟨fresh, hfresh, hflat, lost, found, hlost, hfound, hnum, hden, hle⟩

end Scorer

end AdditiveDetail

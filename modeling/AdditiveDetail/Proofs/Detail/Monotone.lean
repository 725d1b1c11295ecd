/-
More impairment never makes a score better.

# Two impairments

One impairment is at least the other in magnitude, at every place and in
every orientation. Each neighbourhood then weighs at least as much, and a
floor keeps that order. The threshold is the exact sum of three such floors
(`toInt_threshold`), so it has the order too: were it to wrap around just
once, a great impairment would leave a small threshold.

# What a threshold leaves

A threshold is not below zero, so masking takes away from a magnitude, and
a greater threshold takes away more, down to zero. What is left under the
greater impairment is nowhere greater, and detail that is nowhere greater
does not contribute more (`Detail.pooled_atMost`).
-/
import AdditiveDetail.Proofs.Detail.Comparison
import AdditiveDetail.Proofs.Detail.Reach

namespace AdditiveDetail

-- ============================================================= the thresholds

namespace Masking

variable {d : Dims}

/-- A neighbourhood whose samples are greater weighs more. -/
theorem neighbourhood_mono {x y : Raster Int16 d}
    (h : ∀ i j, (x i j).toInt.natAbs ≤ (y i j).toInt.natAbs)
    (s : Surroundings d) :
    scaleDown (neighbourhood x s) ≤ scaleDown (neighbourhood y s) := by
  have := h s.above s.left
  have := h s.above s.column
  have := h s.above s.right
  have := h s.row s.left
  have := h s.row s.column
  have := h s.row s.right
  have := h s.below s.left
  have := h s.below s.column
  have := h s.below s.right
  refine Int.ediv_le_ediv (by decide) ?_
  simp only [neighbourhood, neighbourWeight_eq, centreWeight_eq]
  omega

/-- A greater impairment makes a greater threshold. -/
theorem threshold_mono {x y : Detail d}
    (h : ∀ o i j, (x o i j).toInt.natAbs ≤ (y o i j).toInt.natAbs)
    (hd : d.Nonempty) (i : Fin d.height) (j : Fin d.width) :
    (threshold x hd i j).toInt ≤ (threshold y hd i j).toInt := by
  rw [toInt_threshold, toInt_threshold]
  exact List.sum_le_sum fun o _ => neighbourhood_mono (h o) (around hd i j)

/-- A greater threshold leaves less of a weighted coefficient. -/
theorem mask_antitone {x t t' : Int16} (hx : x.toInt.natAbs ≤ visibleLimit)
    (h0 : 0 ≤ t.toInt) (h : t.toInt ≤ t'.toInt) :
    0 ≤ (mask x t').toInt ∧ (mask x t').toInt ≤ (mask x t).toInt := by
  rw [toInt_mask hx h0, toInt_mask hx (h0.trans h)]
  omega

end Masking

-- ================================================================ the buffers

/-- MORE IMPAIRMENT NEVER RAISES THE NUMERATOR: of two impairments of any
samples, one is nowhere less than the other in magnitude. Beside the same
weighted detail, whatever the buffers held before, both thresholds are
written and both mask the detail. The greater impairment has nowhere a
smaller threshold and leaves nowhere more; and in a window of at most
`2 ^ 31` samples what it leaves does not contribute more. -/
theorem contribution_antitone {c c₁ c₂ c₃ c₄ d : Dims} {scale : Nat}
    {src : BandSet c₁} {dst restored : BandSet c₂}
    (hrestored : src.filterVisible scale dst = .ok restored)
    (hdims : src.dims = d) {less : BandSet c₃} {more : BandSet c₄}
    {x y : Detail d} (hx : less.Shows x) (hy : more.Shows y)
    (h : ∀ o i j, (x o i j).toInt.natAbs ≤ (y o i j).toInt.natAbs)
    (hfit : d ≤ c) (threshold threshold' : Grid Int16 c)
    (masked masked' : BandSet c) :
    ∃ t t' m m',
      threshold.writeThreshold less = .ok t ∧
      threshold'.writeThreshold more = .ok t' ∧
      restored.maskBy t masked = .ok m ∧
      restored.maskBy t' masked' = .ok m' ∧
      (∀ i j, (t.window d hfit i j).toInt ≤ (t'.window d hfit i j).toInt) ∧
      (∃ v v' : Detail d, m.Shows v ∧ m'.Shows v' ∧
        ∀ o i j, 0 ≤ (v' o i j).toInt ∧
          (v' o i j).toInt ≤ (v o i j).toInt) ∧
      (d.area ≤ 2 ^ 31 → ∃ num num',
        m.contribution Pooling.borderFactor = .ok num ∧
        m'.contribution Pooling.borderFactor = .ok num' ∧
        num'.atMost num) := by
  obtain ⟨z, hz⟩ := src.exists_shows hdims
  obtain ⟨hscale, hshows⟩ := BandSet.shows_of_filterVisible hrestored hz
  obtain ⟨t, ht, hwindow⟩ := threshold.exists_writeThreshold hx hfit
  obtain ⟨t', ht', hwindow'⟩ := threshold'.exists_writeThreshold hy hfit
  obtain ⟨m, hm, hms⟩ := BandSet.maskBy_shows masked hshows hfit rfl hfit
  obtain ⟨m', hm', hms'⟩ := BandSet.maskBy_shows masked' hshows hfit rfl hfit
  have hthreshold (i : Fin d.height) (j : Fin d.width) :
      0 ≤ (t.window d hfit i j).toInt ∧
        (t.window d hfit i j).toInt ≤ (t'.window d hfit i j).toInt := by
    have hd : d.Nonempty := ⟨j.pos, i.pos⟩
    rw [hwindow hd, hwindow' hd]
    exact ⟨Masking.threshold_nonneg x hd i j,
      Masking.threshold_mono h hd i j⟩
  have hmask (o : Orientation) (i : Fin d.height) (j : Fin d.width) :=
    Masking.mask_antitone (z.natAbs_visibleAt_le ⟨scale, hscale⟩ o i j)
      (hthreshold i j).1 (hthreshold i j).2
  refine ⟨t, t', m, m', ht, ht', hm, hm', fun i j => (hthreshold i j).2,
    ⟨_, _, hms, hms', hmask⟩, fun harea => ?_⟩
  have hregion := Pooling.pooledRegion_eq d
  refine ⟨_, _, BandSet.contribution_eq hms hregion,
    BandSet.contribution_eq hms' hregion, ?_⟩
  apply Detail.pooled_atMost harea
  intro o i j
  obtain ⟨h0, hle⟩ := hmask o i j
  show (Masking.mask _ _).toInt.natAbs ≤ (Masking.mask _ _).toInt.natAbs
  omega

/-- Impairment of a single place. -/
def Detail.speck : Detail ⟨3, 2⟩ :=
  fun _ i j => if i.val = 1 ∧ j.val = 2 then 300 else 0

/-- Impairment at the edge of what samples reach, everywhere. -/
def Detail.flood : Detail ⟨3, 2⟩ := fun _ _ _ => -32768

theorem contribution_antitone_flood :
    ∃ restored less more : BandSet ⟨3, 2⟩,
      less.Shows Detail.speck ∧ more.Shows Detail.flood ∧
      more.filterVisible 2 (BandSet.zeros ⟨3, 2⟩) = .ok restored ∧
      (∀ o i j, (Detail.speck o i j).toInt.natAbs
        ≤ (Detail.flood o i j).toInt.natAbs) ∧
      ∃ t t' m m' num num',
        (Grid.fill ⟨3, 2⟩ 7).writeThreshold less = .ok t ∧
        (Grid.fill ⟨3, 2⟩ (-7)).writeThreshold more = .ok t' ∧
        restored.maskBy t less = .ok m ∧
        restored.maskBy t' more = .ok m' ∧
        m.contribution Pooling.borderFactor = .ok num ∧
        m'.contribution Pooling.borderFactor = .ok num' ∧
        num'.atMost num := by
  obtain ⟨less, -, hx⟩ := (BandSet.zeros ⟨3, 2⟩).writeDetails_shows
    (Dims.le_refl _) Detail.speck
  obtain ⟨more, -, hy⟩ := (BandSet.zeros ⟨3, 2⟩).writeDetails_shows
    (Dims.le_refl _) Detail.flood
  obtain ⟨restored, hrestored, -⟩ := BandSet.filterVisible_shows
    (BandSet.zeros ⟨3, 2⟩) hy (Dims.le_refl _) ⟨2, by decide⟩
  have hle (o : Orientation) (i : Fin 2) (j : Fin 3) :
      (Detail.speck o i j).toInt.natAbs
        ≤ (Detail.flood o i j).toInt.natAbs := by
    show (if i.val = 1 ∧ j.val = 2 then (300 : Int16) else 0).toInt.natAbs
      ≤ (-32768 : Int16).toInt.natAbs
    revert i j
    decide
  obtain ⟨t, t', m, m', ht, ht', hm, hm', -, -, hcontribution⟩ :=
    contribution_antitone hrestored hy.dims_eq hx hy hle (Dims.le_refl _)
      (Grid.fill _ 7) (Grid.fill _ (-7)) less more
  obtain ⟨num, num', hnum, hnum', hatMost⟩ := hcontribution (by decide)
  exact ⟨restored, less, more, hx, hy, hrestored, hle, t, t', m, m', num, num',
    ht, ht', hm, hm', hnum, hnum', hatMost⟩

end AdditiveDetail

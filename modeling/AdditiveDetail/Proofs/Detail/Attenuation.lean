/-
Detail that is only attenuated.

# One place

A distorted coefficient between zero and the reference one agrees with it,
or is the one or the other of them, or is split along a rounded candidate.
By the law of the split the restored coefficient then lies between zero and
the reference too, and the impairment is zero or a spurious one
(`SplitLaw.of_between`).

# What follows

A one is not visible at any scale. So the visible impairment is zero, and
with it the threshold; masking leaves the magnitude of the restored detail,
and this is nowhere more visible than the reference detail.
-/
import AdditiveDetail.Proofs.Detail.Comparison
import AdditiveDetail.Proofs.Detail.Splitting
import AdditiveDetail.Scoring.Arena

namespace AdditiveDetail

open Binary

-- =================================================================== one place

/-- What is split of a coefficient between zero and the reference: something
between them is restored, and nothing is added or a spurious one. -/
theorem SplitLaw.of_between {agree : Prop} {o t r a : Int}
    (h : SplitLaw agree o t r a)
    (hbetween : 0 ≤ t ∧ t ≤ o ∨ o ≤ t ∧ t ≤ 0) :
    (0 ≤ r ∧ r ≤ o ∨ o ≤ r ∧ r ≤ 0) ∧ (a = 0 ∨ a = 1) := by
  rcases h.split_cases with ⟨-, hr, ha⟩ | ⟨hagree, hsign, -, ha⟩ |
      ⟨hagree, -, hle, -, ha⟩ | ⟨hagree, -, -, -, ha, -⟩
  · omega
  · have ht : t = 0 := by
      rcases mul_nonpos_iff.1 hsign with hsigns | hsigns <;> omega
    exact ⟨h.restored_between hagree, .inl (ha.trans ht)⟩
  · rw [Int.abs_eq_natAbs, Int.abs_eq_natAbs] at hle
    exact ⟨h.restored_between hagree, .inl (by omega)⟩
  · exact ⟨h.restored_between hagree, ha⟩

/-- One place, whatever the angle test says. -/
theorem Split.ofDetails_attenuated {x y : Details Int16} (o : Orientation)
    (h : Attenuates (y.get o) (x.get o)) :
    Attenuates ((Split.ofDetails x y).get o).restored (x.get o) ∧
      (((Split.ofDetails x y).get o).impairment = 0 ∨
        ((Split.ofDetails x y).get o).impairment = 1) := by
  obtain ⟨hr, ha⟩ := (Split.ofDetails_exact x y o).2.of_between h
  exact ⟨hr, ha.imp (fun h0 => Int16.toInt_inj.1 h0)
    fun h1 => Int16.toInt_inj.1 h1⟩

-- ================================================================== all places

namespace Detail

variable {d : Dims} {x y : Detail d}

/-- Every coefficient lies between zero and that of other detail. -/
def Attenuates (y x : Detail d) : Prop :=
  ∀ o i j, AdditiveDetail.Attenuates (y o i j) (x o i j)

theorem Attenuates.split (h : y.Attenuates x) (o : Orientation)
    (i : Fin d.height) (j : Fin d.width) :
    AdditiveDetail.Attenuates (x.restored y o i j) (x o i j) ∧
      (x.impairment y o i j = 0 ∨ x.impairment y o i j = 1) := by
  have := Split.ofDetails_attenuated (x := x.place i j) (y := y.place i j) o
    (by simpa [place] using h o i j)
  rwa [show (x.place i j).get o = x o i j from Details.get_ofFn _ o] at this

/-- What attenuation adds is not visible. -/
theorem Attenuates.visibleAt_impairment (h : y.Attenuates x)
    (scale : Fin Dims.scaleCount) :
    (x.impairment y).visibleAt scale = zero d := by
  funext o i j
  obtain ⟨h0, hle⟩ := o.visibility.weight_bounds scale
  show visible _ (x.impairment y o i j) = 0
  rcases (h.split o i j).2 with he | he
  · rw [he, visible_zero]
  · rw [he, visible_one h0 hle]

/-- Where nothing is masked, what is left of the restored detail is not more
visible than the reference detail. -/
theorem Attenuates.masked_le (h : y.Attenuates x)
    (scale : Fin Dims.scaleCount) (o : Orientation) (i : Fin d.height)
    (j : Fin d.width) :
    0 ≤ (((x.restored y).visibleAt scale).maskedBy (fun _ _ => 0) o i j).toInt ∧
      (((x.restored y).visibleAt scale).maskedBy (fun _ _ => 0) o i j).toInt
        ≤ (x.visibleAt scale o i j).toInt.natAbs := by
  obtain ⟨h0, hle⟩ := o.visibility.weight_bounds scale
  have hlimit := (x.restored y).natAbs_visibleAt_le scale o i j
  have hvisible : ((x.restored y).visibleAt scale o i j).toInt.natAbs
      ≤ (x.visibleAt scale o i j).toInt.natAbs :=
    natAbs_visible_le_of_attenuates h0 hle (h.split o i j).1
  unfold maskedBy
  rw [Masking.toInt_mask hlimit le_rfl, Int16.toInt_zero]
  omega

end Detail

-- =================================================================== the buffers

/-- Impairment that is zero makes no threshold, in a window of any size. -/
theorem Grid.writeThreshold_zero {c c₁ d : Dims} (threshold : Grid Int16 c)
    {impairment : BandSet c₁} (hx : impairment.Shows (Detail.zero d))
    (h : d ≤ c) :
    ∃ t, threshold.writeThreshold impairment = .ok t ∧
      t.window d h = fun _ _ => 0 := by
  obtain ⟨t, ht, hwindow⟩ := threshold.exists_writeThreshold hx h
  refine ⟨t, ht, funext fun i => funext fun j => ?_⟩
  have hd : d.Nonempty := ⟨j.pos, i.pos⟩
  rw [hwindow hd, Masking.threshold_zero hd]

/-- ATTENUATION: distorted detail that lies between zero and the reference
detail everywhere, both of any samples and in windows of any size, goes
through the stages of a scale. Nothing of what it adds is visible, nothing
is masked, what is left of it is nowhere more visible than the reference
detail, and it does not contribute more. -/
theorem contribution_attenuated {c c₁ c₂ d : Dims} {reference : BandSet c₁}
    {distorted : BandSet c₂} {x y : Detail d} (hx : reference.Shows x)
    (hy : distorted.Shows y) (h : y.Attenuates x) (harea : d.area ≤ 2 ^ 31)
    (scale : Fin Dims.scaleCount) (a : Arena c) (hfit : d ≤ c) :
    ∃ restored impairment visibleReference visibleRestored visibleImpairment
      threshold masked num den,
      reference.decouple distorted a.restored a.impairment
        = .ok (restored, impairment) ∧
      reference.filterVisible scale a.visibleReference = .ok visibleReference ∧
      restored.filterVisible scale a.visibleRestored = .ok visibleRestored ∧
      impairment.filterVisible scale a.visibleImpairment
        = .ok visibleImpairment ∧
      a.threshold.writeThreshold visibleImpairment = .ok threshold ∧
      visibleRestored.maskBy threshold a.masked = .ok masked ∧
      visibleImpairment.Shows (Detail.zero d) ∧
      (threshold.window d hfit = fun _ _ => 0) ∧
      (∃ v m : Detail d, visibleReference.Shows v ∧ masked.Shows m ∧
        ∀ o i j, 0 ≤ (m o i j).toInt ∧
          (m o i j).toInt ≤ (v o i j).toInt.natAbs) ∧
      masked.contribution Pooling.borderFactor = .ok num ∧
      visibleReference.contribution Pooling.borderFactor = .ok den ∧
      num.atMost den := by
  obtain ⟨restored, impairment, hsplit, hr, hi⟩ :=
    BandSet.decouple_shows a.restored a.impairment hx hy hfit hfit
  obtain ⟨visibleReference, hvx, hvxs⟩ :=
    BandSet.filterVisible_shows a.visibleReference hx hfit scale
  obtain ⟨visibleRestored, hvr, hvrs⟩ :=
    BandSet.filterVisible_shows a.visibleRestored hr hfit scale
  obtain ⟨visibleImpairment, hvi, hvis⟩ :=
    BandSet.filterVisible_shows a.visibleImpairment hi hfit scale
  rw [h.visibleAt_impairment scale] at hvis
  obtain ⟨threshold, hthreshold, hwindow⟩ :=
    a.threshold.writeThreshold_zero hvis hfit
  obtain ⟨masked, hmask, hms⟩ :=
    BandSet.maskBy_shows a.masked hvrs hfit hwindow hfit
  have hregion := Pooling.pooledRegion_eq d
  refine ⟨restored, impairment, visibleReference, visibleRestored,
    visibleImpairment, threshold, masked, _, _, hsplit, hvx, hvr, hvi,
    hthreshold, hmask, hvis, hwindow, ⟨_, _, hvxs, hms, h.masked_le scale⟩,
    BandSet.contribution_eq hms hregion, BandSet.contribution_eq hvxs hregion,
    ?_⟩
  apply Detail.pooled_atMost harea
  intro o i j
  have := h.masked_le scale o i j
  omega

/-- A coefficient at the edge of what samples reach, and one above zero. -/
def Detail.strong : Detail ⟨2, 1⟩ := fun _ _ j => if j = 0 then -32768 else 9

/-- The same, attenuated. -/
def Detail.weak : Detail ⟨2, 1⟩ := fun _ _ j => if j = 0 then -32767 else 4

theorem contribution_attenuated_weak :
    ∃ (a : Arena ⟨2, 1⟩) (reference distorted : BandSet ⟨2, 1⟩),
      reference.Shows Detail.strong ∧ distorted.Shows Detail.weak ∧
      Detail.weak.Attenuates Detail.strong ∧
      ∃ restored impairment visibleReference,
        reference.decouple distorted a.restored a.impairment
          = .ok (restored, impairment) ∧
        reference.filterVisible 0 a.visibleReference = .ok visibleReference ∧
        ∃ (masked : BandSet ⟨2, 1⟩) (num den : Binary64),
          masked.contribution Pooling.borderFactor = .ok num ∧
          visibleReference.contribution Pooling.borderFactor = .ok den ∧
          num.atMost den := by
  obtain ⟨a, -⟩ : ∃ a, Arena.allocate ⟨2, 1⟩ = .ok a := ⟨_, rfl⟩
  obtain ⟨reference, -, hx⟩ :=
    a.reference.writeDetails_shows (Dims.le_refl _) Detail.strong
  obtain ⟨distorted, -, hy⟩ :=
    a.distorted.writeDetails_shows (Dims.le_refl _) Detail.weak
  have hweak : Detail.weak.Attenuates Detail.strong := by
    intro _ _ j
    show Attenuates (if j = 0 then -32767 else 4) (if j = 0 then -32768 else 9)
    revert j
    decide
  obtain ⟨restored, impairment, visibleReference, _, _, _, masked, num, den, hsplit,
      hvisible, -, -, -, -, -, -, -, hnum, hden, hle⟩ :=
    contribution_attenuated hx hy hweak (by decide) ⟨0, by decide⟩ a
      (Dims.le_refl _)
  exact ⟨a, reference, distorted, hx, hy, hweak, restored, impairment,
    visibleReference, hsplit, hvisible, masked, num, den, hnum, hden, hle⟩

end AdditiveDetail

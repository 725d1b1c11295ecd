/-
A picture made brighter as a whole.

# What cancels, and what does not

A constant that is added to every sample cancels where the column pass is
high-pass, before anything is dropped: the horizontal and the diagonal
detail stay what they were, bit for bit. Where the column pass is low-pass
the constant goes through, and its sum is scaled down together with that of
the picture. Two fractions that are dropped together may make up one unit
more than two that are dropped apart, so each column of a scratch row
carries zero or one, as its samples have it (`Raster.carry_mem`).

# The carries

The units that all columns have in common cancel in the high-pass row pass
of the vertical detail. The carries do not: four of them reach through the
taps to less than one unit in either direction, and a sum that moves by less
than one unit is scaled down to the same number or to one beside it.
-/
import AdditiveDetail.Proofs.Scoring.Accuracy
import AdditiveDetail.Proofs.Wavelet.Flat

namespace AdditiveDetail

/-- The picture with a constant added to every sample. -/
def Image.brighter (src : Image) (c : Int) : Image where
  dims := src.dims
  sample i j := src.sample i j + c

namespace Raster

variable {d : Dims} {x : Raster Int d} {f : FilterBank} {c : Int}

-- ============================================================= the column pass

/-- The constant goes through a filter as through the sum of its taps. -/
theorem columnSum_add (x : Raster Int d) (h : d.Nonempty) (t : Taps) (i : Nat)
    (j : Fin d.width) (c : Int) :
    columnSum (fun i j => x i j + c) h t i j
      = x.columnSum h t i j + (t.t0 + t.t1 + t.t2 + t.t3) * c := by
  unfold columnSum
  rw [t.response_add, Quad.map_const fun _ => rfl, t.response_flat]

/-- Taps that cancel do not see the constant. -/
theorem columnFiltered_add {t : Taps} (ht : t.Cancels) (h : d.Nonempty)
    (i : Nat) (j : Fin d.width) :
    columnFiltered (fun i j => x i j + c) h t i j
      = x.columnFiltered h t i j := by
  have hsum := x.columnSum_add h t i j c
  rw [ht, Int.zero_mul, Int.add_zero] at hsum
  exact congrArg (fun sum => narrow (scaleDown sum)) hsum

/-- What two sums scaled down together have over the two scaled down
apart. -/
def carry (sum other : Int) : Int :=
  scaleDown (sum + other) - scaleDown sum - scaleDown other

theorem carry_mem (sum other : Int) : carry sum other ∈ (⟨0, 1⟩ : Bounds) := by
  have hsum := scaleDown_add_dropped sum
  have hother := scaleDown_add_dropped other
  have htotal := scaleDown_add_dropped (sum + other)
  have := dropped_nonneg sum
  have := dropped_nonneg other
  have := dropped_nonneg (sum + other)
  have := dropped_lt sum
  have := dropped_lt other
  have := dropped_lt (sum + other)
  unfold carry
  constructor
  · show 0 ≤ _
    omega
  · show _ ≤ 1
    omega

-- =================================================================== the bands

/-- A band that is high-pass down the columns stays what it was. -/
theorem subBand_add_high (hf : f.high.Cancels) (h : d.Nonempty) {band : Band}
    (hband : band.columns = .high) :
    subBand (fun i j => x i j + c) h f band = x.subBand h f band := by
  funext i j
  unfold subBand
  rw [hband]
  simp only [FilterBank.channel, columnFiltered_add hf]

/-- The row sums of the vertical detail differ by the response to the
carries. -/
theorem response_carry {t : Taps} (ht : t.Cancels) {α : Type} (g : α → Int)
    (other : Int) (q : Quad α) :
    t.response (q.map fun a => scaleDown (g a + other))
      = t.response (q.map fun a => scaleDown (g a))
        + t.response (q.map fun a => carry (g a) other) := by
  have hsplit (a : α) : scaleDown (g a + other)
      = scaleDown (g a) + (carry (g a) other + scaleDown other) := by
    unfold carry
    ring
  simp only [hsplit]
  -- the units that all four samples have in common cancel, the carries stay
  rw [t.response_add, t.response_add, Quad.map_const fun _ => rfl,
    t.response_flat, ht, Int.zero_mul, Int.add_zero]

/-- A sum that moves by one unit at most moves its scaled value by one at
most. -/
theorem abs_scaleDown_add_sub_le {sum move : Int} (h : |move| ≤ 32768) :
    |scaleDown (sum + move) - scaleDown sum| ≤ 1 := by
  have hsum := scaleDown_add_dropped sum
  have htotal := scaleDown_add_dropped (sum + move)
  have := dropped_nonneg sum
  have := dropped_nonneg (sum + move)
  have := dropped_lt sum
  have := dropped_lt (sum + move)
  obtain ⟨hlow, hhigh⟩ := abs_le.1 h
  exact abs_le.2 ⟨by omega, by omega⟩

/-- The high-pass filter in use does not make a unit of carries. -/
theorem abs_response_carry_le {α : Type} (g : α → Int) (other : Int)
    (q : Quad α) :
    |FilterBank.daubechies.high.response (q.map fun a => carry (g a) other)|
      ≤ 32768 := by
  have hreach : (⟨0, 1⟩ : Bounds).summed ⟨0, 0⟩
      FilterBank.daubechies.high.toList = ⟨-27411, 27411⟩ := by
    rw [FilterBank.daubechies_eq]
    decide
  have hmem := Bounds.response_mem FilterBank.daubechies.high
    (fun a => carry_mem (g a) other) q
  rw [hreach] at hmem
  exact abs_le.2
    ⟨le_trans (by decide) hmem.1, hmem.2.trans (by decide)⟩

/-- The vertical detail moves by one at most. -/
theorem abs_subBand_add_sub_le (h : d.Nonempty)
    (hx : ∀ i j, x i j ∈ Bounds.pixel)
    (hy : ∀ i j, x i j + c ∈ Bounds.pixel)
    (i : Fin d.half.height) (j : Fin d.half.width) :
    |(subBand (fun i j => x i j + c) h .daubechies (.detail .vertical) i
        j).toInt
      - (x.subBand h .daubechies (.detail .vertical) i j).toInt| ≤ 1 := by
  rw [toInt_subBand Bounds.pixel_levelHeadroom h hx,
    toInt_subBand Bounds.pixel_levelHeadroom h hy]
  simp only [columnSum_add, Band.rows, Band.columns, FilterBank.channel]
  rw [response_carry FilterBank.daubechies_cancels]
  exact abs_scaleDown_add_sub_le (abs_response_carry_le _ _ _)

end Raster

-- =============================================================== the transform

/-- What a level leaves of a picture and of the same picture made brighter:
the same window, with the same horizontal and diagonal detail in it, and
vertical detail that differs by one at most. -/
structure BandSet.Brightened {capacity : Dims}
    (before after : BandSet capacity) : Prop where
  dims_eq : after.dims = before.dims
  horizontal_eq : ∀ (i : Fin capacity.height) (j : Fin capacity.width),
    i < before.dims.height → j < before.dims.width →
    (after.buffer (.detail .horizontal)).get i j
      = (before.buffer (.detail .horizontal)).get i j
  diagonal_eq : ∀ (i : Fin capacity.height) (j : Fin capacity.width),
    i < before.dims.height → j < before.dims.width →
    (after.buffer (.detail .diagonal)).get i j
      = (before.buffer (.detail .diagonal)).get i j
  vertical_le : ∀ (i : Fin capacity.height) (j : Fin capacity.width),
    i < before.dims.height → j < before.dims.width →
    |((after.buffer (.detail .vertical)).get i j).toInt
      - ((before.buffer (.detail .vertical)).get i j).toInt| ≤ 1

/-- Bands that are put into the window of two sets of buffers. -/
theorem BandSet.brightened_writeBands {capacity d : Dims}
    (b b' : BandSet capacity) (hfit : d ≤ capacity)
    {g g' : Band → Raster Int16 d}
    (hhorizontal : g' (.detail .horizontal) = g (.detail .horizontal))
    (hdiagonal : g' (.detail .diagonal) = g (.detail .diagonal))
    (hvertical : ∀ i j, |(g' (.detail .vertical) i j).toInt
      - (g (.detail .vertical) i j).toInt| ≤ 1) :
    (b.writeBands d hfit g).Brightened (b'.writeBands d hfit g') := by
  have hget (b : BandSet capacity) (g : Band → Raster Int16 d) (band : Band)
      {i : Fin capacity.height} {j : Fin capacity.width}
      (hi : i.val < d.height) (hj : j.val < d.width) :
      ((b.writeBands d hfit g).buffer band).get i j
        = g band ⟨i, hi⟩ ⟨j, hj⟩ := by
    rw [BandSet.buffer_writeBands, Grid.get_write, dif_pos ⟨hi, hj⟩]
  exact {
    dims_eq := rfl
    horizontal_eq := fun i j hi hj => by
      rw [hget b g _ hi hj, hget b' g' _ hi hj, hhorizontal]
    diagonal_eq := fun i j hi hj => by
      rw [hget b g _ hi hj, hget b' g' _ hi hj, hdiagonal]
    vertical_le := fun i j hi hj => by
      rw [hget b g _ hi hj, hget b' g' _ hi hj]
      exact hvertical _ _ }

namespace Transform

variable {maxWidth : Nat} {capacity : Dims}

/-- BRIGHTNESS: where a picture and the picture with a constant added to
every sample both keep to ten bits, both are decomposed, by transforms and
into buffers with any contents, and they have the same horizontal and
diagonal detail and vertical detail that differs by one at most. -/
theorem forward_brighter (t t' : Transform maxWidth) (src : Image) (c : Int)
    (dst dst' : BandSet capacity)
    (hfilters : t.filters = FilterBank.daubechies)
    (hfilters' : t'.filters = FilterBank.daubechies)
    (h : src.dims.Nonempty) (hw : src.dims.width ≤ maxWidth)
    (hfit : src.dims.half ≤ capacity) (hc : 0 ≤ c)
    (hdepth : ∀ i j, 0 ≤ src.sample i j ∧ src.sample i j + c ≤ 1023) :
    ∃ (u u' : Transform maxWidth) (out out' : BandSet capacity),
      t.forward src dst = .ok (u, out) ∧
      t'.forward (src.brighter c) dst' = .ok (u', out') ∧
      out.dims = ⟨(src.dims.width + 1) / 2, (src.dims.height + 1) / 2⟩ ∧
      out.Brightened out' := by
  have hx (i : Fin src.dims.height) (j : Fin src.dims.width) :
      src.sample i j ∈ Bounds.pixel := by
    obtain ⟨h0, h1⟩ := hdepth i j
    exact ⟨h0, show _ ≤ (1023 : Int) by omega⟩
  have hy (i : Fin src.dims.height) (j : Fin src.dims.width) :
      src.sample i j + c ∈ Bounds.pixel := by
    obtain ⟨h0, h1⟩ := hdepth i j
    exact ⟨show 0 ≤ _ by omega, h1⟩
  obtain ⟨u, -, hforward⟩ := t.forward_eq src dst h hw hfit
  obtain ⟨u', -, hforward'⟩ :=
    t'.forward_eq (src.brighter c) dst' h hw hfit
  rw [hfilters] at hforward
  rw [hfilters'] at hforward'
  have hbands := dst.brightened_writeBands dst' hfit
    (Raster.subBand_add_high FilterBank.daubechies_cancels h rfl)
    (Raster.subBand_add_high FilterBank.daubechies_cancels h rfl)
    (Raster.abs_subBand_add_sub_le h hx hy)
  exact ⟨u, u', _, _, hforward, hforward', Dims.half_eq h, hbands⟩

/-- Pixels that grow down the columns and along the rows, with odd axes. -/
def slope : Image where
  dims := ⟨3, 5⟩
  sample i j := 100 * i.val + 11 * j.val

theorem forward_brighter_slope : ∃ (t t' u u' : Transform 3)
    (out out' : BandSet ⟨2, 3⟩),
    t.low ≠ t'.low ∧
      t.forward slope (.zeros ⟨2, 3⟩) = .ok (u, out) ∧
      t'.forward (slope.brighter 600) out = .ok (u', out') ∧
      out.Brightened out' := by
  obtain ⟨t, hfilters, hlow⟩ : ∃ t : Transform 3,
      t.filters = FilterBank.daubechies ∧ t.low = Vector.replicate 3 0 :=
    ⟨⟨_, Vector.replicate 3 0, Vector.replicate 3 0⟩, rfl, rfl⟩
  obtain ⟨t', hfilters', hlow'⟩ : ∃ t : Transform 3,
      t.filters = FilterBank.daubechies ∧ t.low = Vector.replicate 3 9 :=
    ⟨⟨_, Vector.replicate 3 9, Vector.replicate 3 9⟩, rfl, rfl⟩
  have hnonempty : slope.dims.Nonempty := ⟨by decide, by decide⟩
  have hdepth (i : Fin 5) (j : Fin 3) :
      0 ≤ slope.sample i j ∧ slope.sample i j + 600 ≤ 1023 := by
    show 0 ≤ (100 * i.val + 11 * j.val : Int) ∧
      (100 * i.val + 11 * j.val : Int) + 600 ≤ 1023
    omega
  obtain ⟨u, -, out, -, hforward, -, -, -⟩ := t.forward_brighter t slope 600
    (.zeros ⟨2, 3⟩) (.zeros ⟨2, 3⟩) hfilters hfilters hnonempty (by decide)
    (by decide) (by decide) hdepth
  obtain ⟨v, u', out₁, out', hforward₁, hforward', -, hbrightened⟩ :=
    t.forward_brighter t' slope 600 (.zeros ⟨2, 3⟩) out hfilters hfilters'
      hnonempty (by decide) (by decide) (by decide) hdepth
  obtain ⟨-, rfl⟩ := Prod.mk.inj (Except.ok.inj (hforward.symm.trans hforward₁))
  refine ⟨t, t', u, u', out, out', ?_, hforward, hforward', hbrightened⟩
  rw [hlow, hlow']
  decide

end Transform

end AdditiveDetail

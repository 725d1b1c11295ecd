/-
One level of the transform in closed form: what each cell of the four
bands is, as a function of the source alone.

# The closed form

A band is made by one channel of the filters down the columns and one
along the rows. `columnFiltered` is a scratch row as the column pass
leaves it, `subBand` a band as the row pass leaves it; both are pictures,
with no buffer behind them.

# Why the buffers do not matter

`forward` goes through scratch rows that hold what an earlier plane left
and through bands that hold what an earlier scale left. The row pass of an
output row reads only cells that the column pass of the SAME row has
written (`columnPass_filled`), and it writes only its own row of the
window (`rowPass_made`). So after all rows the window is the closed form,
and every other cell is what it was: `forward_eq`.
-/
import AdditiveDetail.Wavelet.Transform

namespace AdditiveDetail

-- ===================================================================== loops

/-- What holds in front of a loop and is kept by each of its steps holds
behind it. -/
theorem foldl_invariant {α : Type} (P : Nat → α → Prop) {n : Nat}
    {f : α → Fin n → α} {start : α} (initially : P 0 start)
    (kept : ∀ (i : Fin n) (a : α), P i a → P (i + 1) (f a i)) :
    P n (Fin.foldl n f start) := by
  induction n with
  | zero => simpa using initially
  | succ n ih =>
      have hn : P n (Fin.foldl n (fun a i => f a i.castSucc) start) :=
        ih fun i => kept i.castSucc
      simpa [Fin.foldl_succ_last] using kept (Fin.last n) _ hn

-- ================================================================== channels

/-- One of the two filters of a bank. -/
inductive Channel where
  | low
  | high

namespace FilterBank

/-- The filter of a channel. -/
def channel (f : FilterBank) : Channel → Taps
  | .low => f.low
  | .high => f.high

end FilterBank

namespace Band

/-- The channel that makes a band down the columns. -/
def columns : Band → Channel
  | .approximation => .low
  | .detail .horizontal => .high
  | .detail .vertical => .low
  | .detail .diagonal => .high

/-- The channel that makes a band along the rows. -/
def rows : Band → Channel
  | .approximation => .low
  | .detail .horizontal => .low
  | .detail .vertical => .high
  | .detail .diagonal => .high

end Band

-- =========================================================== the closed form

namespace Raster

variable {d : Dims}

/-- Each column of a picture, filtered at the rows that output row `i`
reaches. -/
def columnFiltered (x : Raster Int d) (h : d.Nonempty) (t : Taps) (i : Nat)
    (j : Fin d.width) : Int16 :=
  Transform.pass t ((reach i h.height_pos).map fun r => x r j)

/-- A band of a picture. -/
def subBand (x : Raster Int d) (h : d.Nonempty) (f : FilterBank)
    (band : Band) : Raster Int16 d.half :=
  fun i j => Transform.pass (f.channel band.rows)
    ((reach j h.width_pos).map fun k =>
      (x.columnFiltered h (f.channel band.columns) i k).toInt)

end Raster

namespace BandSet

variable {capacity : Dims}

/-- Move the window and put a picture of its size into each of the four
bands. -/
def writeBands (b : BandSet capacity) (d : Dims) (h : d ≤ capacity)
    (f : Band → Raster Int16 d) : BandSet capacity where
  dims := d
  fits := h
  approximation := b.approximation.write d h (f .approximation)
  details := Details.ofFn fun o => (b.details.get o).write d h (f (.detail o))

@[simp]
theorem dims_writeBands (b : BandSet capacity) (d : Dims) (h : d ≤ capacity)
    (f : Band → Raster Int16 d) : (b.writeBands d h f).dims = d := rfl

@[simp]
theorem buffer_writeBands (b : BandSet capacity) (d : Dims)
    (h : d ≤ capacity) (f : Band → Raster Int16 d) (band : Band) :
    (b.writeBands d h f).buffer band = (b.buffer band).write d h (f band) := by
  cases band with
  | approximation => rfl
  | detail o => exact Details.get_ofFn _ o

@[simp]
theorem view_writeBands (b : BandSet capacity) (d : Dims)
    (h : d ≤ capacity) (f : Band → Raster Int16 d) (band : Band) :
    (b.writeBands d h f).view band = f band := by
  unfold view
  rw [buffer_writeBands]
  exact Grid.window_write ..

/-- Sets of bands are told apart by their windows and their buffers. -/
theorem ext_buffer {b b' : BandSet capacity} (hd : b.dims = b'.dims)
    (h : ∀ band, b.buffer band = b'.buffer band) : b = b' := by
  obtain ⟨d, fits, a, x⟩ := b
  obtain ⟨d', fits', a', x'⟩ := b'
  obtain rfl : d = d' := hd
  obtain rfl : a = a' := h .approximation
  obtain rfl : x = x' := Details.ext fun o => h (.detail o)
  rfl

end BandSet

namespace Transform

variable {maxWidth : Nat} {capacity : Dims}

-- =========================================================== the column pass

namespace Sweep

/-- The scratch row of a channel. -/
def scratch (s : Sweep maxWidth capacity) :
    Channel → Vector Int16 maxWidth
  | .low => s.low
  | .high => s.high

/-- The buffer of a band. -/
def buffer (s : Sweep maxWidth capacity) : Band → Grid Int16 capacity
  | .approximation => s.approximation
  | .detail o => s.details.get o

/-- The first `n` cells of the scratch rows are filtered for output row `i`,
and the bands are those of `s₀`. -/
structure Filled (s₀ s : Sweep maxWidth capacity) (filters : FilterBank)
    {d : Dims} (x : Raster Int d) (h : d.Nonempty) (i n : Nat) : Prop where
  buffer_eq : ∀ band, s.buffer band = s₀.buffer band
  scratch_eq : ∀ (c : Channel) (k : Fin d.width) (hk : k.val < maxWidth),
    k.val < n → (s.scratch c)[k.val] = x.columnFiltered h (filters.channel c) i k

theorem columnPass_filled (s : Sweep maxWidth capacity)
    (filters : FilterBank) (src : Image) (h : src.dims.Nonempty)
    (hw : src.dims.width ≤ maxWidth) (i : Nat) :
    Filled s (s.columnPass filters src h hw i) filters src.sample h i
      src.dims.width := by
  unfold columnPass
  refine foldl_invariant
    (fun n s' => Filled s s' filters src.sample h i n) ?_ ?_
  · exact ⟨fun _ => rfl, fun _ _ _ hk => absurd hk (Nat.not_lt_zero _)⟩
  · intro j s' hs
    refine ⟨fun band => ?_, fun c k hk hkn => ?_⟩
    · rw [← hs.buffer_eq band]
      cases band <;> rfl
    · -- one cell of each scratch row changes, the others keep what they had
      by_cases hkj : k = j
      · subst hkj
        cases c <;> simp [scratch, FilterBank.channel, Raster.columnFiltered]
      · have hne : j.val ≠ k.val := fun he => hkj (Fin.ext he.symm)
        have hlt : k.val < j.val := by omega
        rw [← hs.scratch_eq c k hk hlt]
        cases c <;> simp [scratch, hne]

-- ============================================================== the row pass

/-- The first `n` cells of row `i` of each band are made from the scratch
rows of `s₀`; the scratch rows and every other cell are those of `s₀`. -/
structure Made (s₀ s : Sweep maxWidth capacity) (filters : FilterBank)
    {w : Nat} (hw : w ≤ maxWidth) (hpos : 0 < w) (i : Fin capacity.height)
    (n : Nat) : Prop where
  scratch_eq : ∀ c, s.scratch c = s₀.scratch c
  get_eq : ∀ (band : Band) (i' : Fin capacity.height)
    (j : Fin capacity.width), (s.buffer band).get i' j
      = if i' = i ∧ j.val < n then
          pass (filters.channel band.rows) ((reach j hpos).map fun k =>
            ((s₀.scratch band.columns)[k.castLE hw]).toInt)
        else (s₀.buffer band).get i' j

theorem rowPass_made (s : Sweep maxWidth capacity) (filters : FilterBank)
    {w : Nat} (hw : w ≤ maxWidth) (hpos : 0 < w) (i : Fin capacity.height)
    (n : Nat) (hn : n ≤ capacity.width) :
    Made s (s.rowPass filters hw hpos i n hn) filters hw hpos i n := by
  unfold rowPass
  refine foldl_invariant
    (fun n s' => Made s s' filters hw hpos i n) ?_ ?_
  · exact ⟨fun _ => rfl, fun _ _ _ => by simp⟩
  · intro j s' hs
    refine ⟨fun c => ?_, fun band i' j' => ?_⟩
    · rw [← hs.scratch_eq c]
      cases c <;> rfl
    · rw [← hs.scratch_eq band.columns]
      -- the step sets cell `(i, j)` of this band and no other
      refine Eq.trans (b := if i' = i ∧ j' = j.castLE hn then
          pass (filters.channel band.rows) ((reach j hpos).map fun k =>
            ((s'.scratch band.columns)[k.castLE hw]).toInt)
        else (s'.buffer band).get i' j') ?_ ?_
      · cases band with
        | approximation => exact Grid.get_set ..
        | detail o => cases o <;> exact Grid.get_set ..
      · rw [hs.get_eq, hs.scratch_eq]
        by_cases hi : i' = i
        · by_cases hj : j' = j.castLE hn
          · subst hj
            simp [hi]
          · have hne : j'.val ≠ j.val := fun he => hj (Fin.ext he)
            have hlt : j'.val < j.val + 1 ↔ j'.val < j.val := by omega
            simp [hi, hj, hlt]
        · simp [hi]

/-- The first `n` rows of the window are made; every other cell of the
bands is that of `s₀`. -/
def Swept (s₀ s : Sweep maxWidth capacity) (filters : FilterBank)
    {d : Dims} (x : Raster Int d) (h : d.Nonempty) (n : Nat) : Prop :=
  ∀ (band : Band) (i : Fin capacity.height) (j : Fin capacity.width),
    (s.buffer band).get i j
      = if hij : (i.val < n ∧ i.val < d.half.height) ∧ j.val < d.half.width then
          x.subBand h filters band ⟨i, hij.1.2⟩ ⟨j, hij.2⟩
        else (s₀.buffer band).get i j

/-- Making one more row. The scratch rows may hold anything in front of it:
the column pass fills what the row pass reads. -/
theorem swept_succ {s₀ s : Sweep maxWidth capacity} {filters : FilterBank}
    {src : Image} {h : src.dims.Nonempty} (hw : src.dims.width ≤ maxWidth)
    (hfit : src.dims.half ≤ capacity) (i : Fin src.dims.half.height)
    (hs : Swept s₀ s filters src.sample h i) :
    Swept s₀ ((s.columnPass filters src h hw i).rowPass filters hw
      h.width_pos (i.castLE hfit.2) src.dims.half.width hfit.1)
      filters src.sample h (i + 1) := by
  have hfill := s.columnPass_filled filters src h hw i
  have hmade := (s.columnPass filters src h hw i).rowPass_made filters hw
    h.width_pos (i.castLE hfit.2) src.dims.half.width hfit.1
  intro band i' j
  rw [hmade.get_eq, hfill.buffer_eq, hs band i' j]
  by_cases hi : i' = i.castLE hfit.2
  · subst hi
    by_cases hj : j.val < src.dims.half.width
    · have hcell (k : Fin src.dims.width) :=
        hfill.scratch_eq band.columns k (Nat.lt_of_lt_of_le k.isLt hw) k.isLt
      simp [hj, Raster.subBand, Quad.map, hcell]
    · simp [hj]
  · have hne : i'.val ≠ i.val := fun he => hi (Fin.ext he)
    have hlt : i'.val < i.val + 1 ↔ i'.val < i.val := by omega
    simp [hi, hlt]

end Sweep

-- =========================================================== all output rows

theorem sweep_snd (t : Transform maxWidth) (src : Image)
    (dst : BandSet capacity) (h : src.dims.Nonempty)
    (hw : src.dims.width ≤ maxWidth) (hfit : src.dims.half ≤ capacity) :
    (t.sweep src dst h hw hfit).2
      = dst.writeBands src.dims.half hfit (src.sample.subBand h t.filters) := by
  let start : Sweep maxWidth capacity :=
    ⟨t.low, t.high, dst.approximation, dst.details⟩
  have hstart : Sweep.Swept start start t.filters src.sample h 0 := by
    intro band i j
    simp
  have hswept := foldl_invariant
    (fun n s => Sweep.Swept start s t.filters src.sample h n) hstart
    fun i s hs => Sweep.swept_succ hw hfit i hs
  refine BandSet.ext_buffer rfl fun band => Grid.ext fun i j => ?_
  have hget := hswept band i j
  rw [BandSet.buffer_writeBands, Grid.get_write]
  simp only [and_self] at hget
  cases band <;> exact hget

/-- A source that fits is decomposed: the window takes on half its size and
shows the closed form, and no cell outside it changes. -/
theorem forward_eq (t : Transform maxWidth) (src : Image)
    (dst : BandSet capacity) (h : src.dims.Nonempty)
    (hw : src.dims.width ≤ maxWidth) (hfit : src.dims.half ≤ capacity) :
    ∃ t' : Transform maxWidth, t'.filters = t.filters ∧
      t.forward src dst = .ok (t', dst.writeBands src.dims.half hfit
        (src.sample.subBand h t.filters)) := by
  refine ⟨(t.sweep src dst h hw hfit).1, rfl, ?_⟩
  rw [← sweep_snd t src dst h hw hfit]
  simp [forward, h, hw, hfit]

end Transform

end AdditiveDetail

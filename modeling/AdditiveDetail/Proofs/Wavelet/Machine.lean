/-
The transform on a machine that checks what it does.

# One machine

A raster takes indices that are in bounds by their type, and a loop over a
window gets such indices from its bounds. On the machine of this module an
index is a natural number, computed like any other, and `index?` looks it
up before a cell is read or written: past the end there is no cell, and
the machine stops. A slice is looked up too, by its size.

What a pass does with the samples that it has read is a parameter
(`Passes`): it may check its arithmetic as well, and stop where a check
fails. So there is one pair of loops, and every machine that runs them is
told by its passes.

# It does not stop

What a filter reads past an edge is reflected, and a reflected index is an
index of the row or the column (`reflect_lt`). So look-ups find a cell in
every source that has one. The passes are given the samples of the source
and those of the scratch rows, and the latter are what the column pass of
the same output row has made of the former: where the passes stop at none
of these (`Passes.Run`), the machine does what `forward` does, and it stops
where `forward` faults (`forwardBy_eq`).
-/
import AdditiveDetail.Proofs.Wavelet.Decomposition

namespace AdditiveDetail

/-- A loop of checked steps runs as the loop of plain steps when, at every
state that the plain loop reaches, the check passes. -/
theorem foldlM_eq_foldl {α : Type} (P : Nat → α → Prop) {n : Nat}
    {f : α → Fin n → α} {g : α → Fin n → Option α} {start : α}
    (initially : P 0 start)
    (kept : ∀ (i : Fin n) (a : α), P i a → P (i + 1) (f a i))
    (passes : ∀ (i : Fin n) (a : α), P i a → g a i = some (f a i)) :
    Fin.foldlM n g start = some (Fin.foldl n f start) := by
  induction n with
  | zero => simp
  | succ n ih =>
      have hrun := ih (fun i => kept i.castSucc) (fun i => passes i.castSucc)
      have hn : P n (Fin.foldl n (fun a i => f a i.castSucc) start) :=
        foldl_invariant P initially fun i => kept i.castSucc
      rw [Fin.foldlM_succ_last, Fin.foldl_succ_last]
      simp only [hrun]
      exact passes (Fin.last n) _ hn

/-- A loop whose first step stops has no result. -/
theorem foldlM_eq_none {α : Type} {n : Nat} {g : α → Fin n → Option α}
    {start : α} (hn : 0 < n) (h : g start ⟨0, hn⟩ = none) :
    Fin.foldlM n g start = none := by
  obtain ⟨n, rfl⟩ := Nat.exists_eq_succ_of_ne_zero (Nat.ne_of_gt hn)
  have hfirst : g start 0 = none := h
  rw [Fin.foldlM_succ]
  simp only [hfirst]
  rfl

-- ================================================================= looking up

/-- The cell at an index of an axis of `n` cells; none past its end. -/
def index? (i n : Nat) : Option (Fin n) :=
  if h : i < n then some ⟨i, h⟩ else none

theorem index?_eq {i n : Nat} (h : i < n) : index? i n = some ⟨i, h⟩ :=
  dif_pos h

/-- The index of a loop over the whole axis. -/
theorem index?_val {n : Nat} (i : Fin n) : index? i n = some i :=
  index?_eq i.isLt

/-- `reach` with look-ups. -/
def reachIndexed (i n : Nat) : Option (Quad (Fin n)) := do
  let x0 ← index? (reflect (2 * i - 1) n) n
  let x1 ← index? (reflect (2 * i) n) n
  let x2 ← index? (reflect (2 * i + 1) n) n
  let x3 ← index? (reflect (2 * i + 2) n) n
  return { x0, x1, x2, x3 }

/-- Reflected indices are in bounds. -/
theorem reachIndexed_eq (i : Nat) {n : Nat} (h : 0 < n) :
    reachIndexed i n = some (reach i h) := by
  unfold reachIndexed
  simp only [index?_eq (reflect_lt _ h)]
  rfl

namespace Transform

variable {maxWidth : Nat} {capacity : Dims}

-- ================================================================ the machine

/-- What a machine makes of the samples that a pass has read: of those down a
column, and of those along a scratch row for each of the bands. It stops
where there is no result. -/
structure Passes where
  column : Taps → Quad Int → Option Int16
  row : Band → Taps → Quad Int → Option Int16

/-- `columnPass` with look-ups. -/
def Sweep.columnPassBy (p : Passes) (s : Sweep maxWidth capacity)
    (filters : FilterBank) (src : Image) (hw : src.dims.width ≤ maxWidth)
    (i : Nat) : Option (Sweep maxWidth capacity) :=
  Fin.foldlM src.dims.width (fun s j => do
    let rows ← reachIndexed i src.dims.height
    let column ← index? j src.dims.width
    let x := rows.map fun r => src.sample r column
    let low ← p.column filters.low x
    let high ← p.column filters.high x
    let k := column.castLE hw
    return { s with
      low := s.low.set k low k.isLt
      high := s.high.set k high k.isLt }) s

/-- `rowPass` with look-ups, into a window of size `out`. -/
def Sweep.rowPassBy (p : Passes) (s : Sweep maxWidth capacity)
    (filters : FilterBank) {w : Nat} (hw : w ≤ maxWidth) {out : Dims}
    (hfit : out ≤ capacity) (i : Nat) : Option (Sweep maxWidth capacity) :=
  Fin.foldlM out.width (fun s j => do
    let columns ← reachIndexed j w
    let low := columns.map fun k => (s.low.get (k.castLE hw)).toInt
    let high := columns.map fun k => (s.high.get (k.castLE hw)).toInt
    let approximation ← p.row .approximation filters.low low
    let vertical ← p.row (.detail .vertical) filters.high low
    let horizontal ← p.row (.detail .horizontal) filters.low high
    let diagonal ← p.row (.detail .diagonal) filters.high high
    let row ← index? i out.height
    let column ← index? j out.width
    let i := row.castLE (Dims.height_le hfit)
    let j := column.castLE (Dims.width_le hfit)
    return { s with
      approximation := s.approximation.set i j approximation
      details := {
        vertical := s.details.vertical.set i j vertical
        horizontal := s.details.horizontal.set i j horizontal
        diagonal := s.details.diagonal.set i j diagonal } }) s

/-- An output row: the two passes, one after the other. -/
def Sweep.rowBy (p : Passes) (s : Sweep maxWidth capacity)
    (filters : FilterBank) (src : Image) (hw : src.dims.width ≤ maxWidth)
    (hfit : src.dims.half ≤ capacity) (i : Nat) :
    Option (Sweep maxWidth capacity) := do
  let s ← s.columnPassBy p filters src hw i
  s.rowPassBy p filters hw hfit i

/-- `forward` on a machine: the slice of the scratch rows is looked up first,
then the window of the destination. -/
def forwardBy (p : Passes) (t : Transform maxWidth) (src : Image)
    (dst : BandSet capacity) :
    Option (Transform maxWidth × BandSet capacity) :=
  if hw : src.dims.width ≤ maxWidth then
    if hfit : src.dims.half ≤ capacity then do
      let start : Sweep maxWidth capacity := {
        low := t.low
        high := t.high
        approximation := dst.approximation
        details := dst.details }
      let swept ← Fin.foldlM src.dims.half.height
        (fun s i => s.rowBy p t.filters src hw hfit i) start
      return ({ t with low := swept.low, high := swept.high },
        { dims := src.dims.half
          fits := hfit
          approximation := swept.approximation
          details := swept.details })
    else none
  else none

-- ========================================================== it does not stop

/-- The passes stop nowhere in a source: they give the scratch rows and the
bands of the closed form. -/
structure Passes.Run (p : Passes) (f : FilterBank) (src : Image) : Prop where
  columns : ∀ (h : src.dims.Nonempty) (c : Channel)
    (i : Fin src.dims.half.height) (j : Fin src.dims.width),
    p.column (f.channel c)
        ((reach i h.height_pos).map fun r => src.sample r j)
      = some (src.sample.columnFiltered h (f.channel c) i j)
  rows : ∀ (h : src.dims.Nonempty) (band : Band)
    (i : Fin src.dims.half.height) (j : Fin src.dims.half.width),
    p.row band (f.channel band.rows) ((reach j h.width_pos).map fun k =>
        (src.sample.columnFiltered h (f.channel band.columns) i k).toInt)
      = some (src.sample.subBand h f band i j)

namespace Sweep

variable {p : Passes} {filters : FilterBank} {src : Image}

theorem columnPassBy_eq (s : Sweep maxWidth capacity)
    (h : src.dims.Nonempty) (hw : src.dims.width ≤ maxWidth)
    (i : Fin src.dims.half.height) (hrun : p.Run filters src) :
    s.columnPassBy p filters src hw i
      = some (s.columnPass filters src h hw i) := by
  -- the passes read the source only, so nothing is asked of the state
  refine foldlM_eq_foldl (fun _ _ => True) trivial
    (fun _ _ _ => trivial) fun j s _ => ?_
  have hlow := hrun.columns h .low i j
  have hhigh := hrun.columns h .high i j
  simp only [FilterBank.channel] at hlow hhigh
  simp only [reachIndexed_eq i h.height_pos, index?_val, Option.bind_eq_bind,
    Option.bind_some, hlow, hhigh]
  rfl

/-- The row pass is given the scratch rows of the closed form, as long as they
are those of its own output row. -/
theorem rowPassBy_eq {s₀ s : Sweep maxWidth capacity}
    (h : src.dims.Nonempty) (hw : src.dims.width ≤ maxWidth)
    (hfit : src.dims.half ≤ capacity) (i : Fin src.dims.half.height)
    (hrun : p.Run filters src)
    (hfilled : Filled s₀ s filters src.sample h i src.dims.width) :
    s.rowPassBy p filters hw hfit i
      = some (s.rowPass filters hw h.width_pos (i.castLE hfit.2)
          src.dims.half.width hfit.1) := by
  -- it leaves the scratch rows that it reads as they are
  refine foldlM_eq_foldl (fun _ s' => ∀ c, s'.scratch c = s.scratch c)
    (fun _ => rfl) ?_ ?_
  · intro j s' hs c
    rw [← hs c]
    cases c <;> rfl
  · intro j s' hs
    have hread (c : Channel) (k : Fin src.dims.width) :
        (s'.scratch c).get (k.castLE hw)
          = src.sample.columnFiltered h (filters.channel c) i k := by
      rw [hs c]
      exact hfilled.scratch_eq c k (Nat.lt_of_lt_of_le k.isLt hw) k.isLt
    have hpass (band : Band) :
        p.row band (filters.channel band.rows)
          ((reach j h.width_pos).map fun k =>
            ((s'.scratch band.columns).get (k.castLE hw)).toInt)
          = some (pass (filters.channel band.rows)
            ((reach j h.width_pos).map fun k =>
              ((s'.scratch band.columns).get (k.castLE hw)).toInt)) := by
      simp only [hread]
      exact hrun.rows h band i j
    have happroximation := hpass .approximation
    have hvertical := hpass (.detail .vertical)
    have hhorizontal := hpass (.detail .horizontal)
    have hdiagonal := hpass (.detail .diagonal)
    simp only [FilterBank.channel, Band.rows, Band.columns, scratch]
      at happroximation hvertical hhorizontal hdiagonal
    simp only [reachIndexed_eq j h.width_pos, index?_val, Option.bind_eq_bind,
      Option.bind_some, happroximation, hvertical, hhorizontal, hdiagonal]
    rfl

/-- Whatever the scratch rows hold in front of an output row, its column pass
fills what its row pass reads. -/
theorem rowBy_eq (s : Sweep maxWidth capacity) (h : src.dims.Nonempty)
    (hw : src.dims.width ≤ maxWidth) (hfit : src.dims.half ≤ capacity)
    (i : Fin src.dims.half.height) (hrun : p.Run filters src) :
    s.rowBy p filters src hw hfit i
      = some ((s.columnPass filters src h hw i).rowPass filters hw
          h.width_pos (i.castLE hfit.2) src.dims.half.width hfit.1) := by
  unfold rowBy
  rw [s.columnPassBy_eq h hw i hrun]
  exact rowPassBy_eq h hw hfit i hrun
    (s.columnPass_filled filters src h hw i)

end Sweep

theorem forwardBy_of_nonempty {p : Passes} (t : Transform maxWidth)
    (src : Image) (dst : BandSet capacity) (h : src.dims.Nonempty)
    (hrun : p.Run t.filters src) :
    t.forwardBy p src dst = (t.forward src dst).toOption := by
  unfold forwardBy forward
  by_cases hw : src.dims.width ≤ maxWidth
  · by_cases hfit : src.dims.half ≤ capacity
    · rw [dif_pos hw, dif_pos hw, dif_pos hfit, dif_pos hfit, dif_pos h]
      simp only
      rw [foldlM_eq_foldl (fun _ _ => True) trivial (fun _ _ _ => trivial)
        fun i s _ => s.rowBy_eq h hw hfit i hrun]
      rfl
    · rw [dif_pos hw, dif_pos hw, dif_neg hfit, dif_neg hfit]
      rfl
  · rw [dif_neg hw, dif_neg hw]
    rfl

-- ============================================================= where it stops

/-- The first output row of a source without samples: without columns the row
pass finds nothing to read, without rows the column pass. -/
theorem Sweep.rowBy_eq_none {p : Passes} (s : Sweep maxWidth capacity)
    (filters : FilterBank) {src : Image} (h : ¬src.dims.Nonempty)
    (hw : src.dims.width ≤ maxWidth) (hfit : src.dims.half ≤ capacity)
    (i : Nat) : s.rowBy p filters src hw hfit i = none := by
  obtain ⟨⟨width, height⟩, sample⟩ := src
  unfold rowBy
  rcases Nat.eq_zero_or_pos width with rfl | hwidth
  · have hrow (s : Sweep maxWidth capacity) :
        s.rowPassBy p filters hw hfit i = none :=
      foldlM_eq_none (Dims.half_nonempty _).width_pos rfl
    cases s.columnPassBy p filters ⟨⟨0, height⟩, sample⟩ hw i with
    | none => rfl
    | some s => exact hrow s
  · rcases Nat.eq_zero_or_pos height with rfl | hheight
    · have hcolumn :
          s.columnPassBy p filters ⟨⟨width, 0⟩, sample⟩ hw i = none :=
        foldlM_eq_none hwidth rfl
      rw [hcolumn]
      rfl
    · exact absurd ⟨hwidth, hheight⟩ h

theorem forwardBy_eq_none {p : Passes} (t : Transform maxWidth) {src : Image}
    (dst : BandSet capacity) (h : ¬src.dims.Nonempty) :
    t.forwardBy p src dst = none := by
  unfold forwardBy
  by_cases hw : src.dims.width ≤ maxWidth
  · by_cases hfit : src.dims.half ≤ capacity
    · rw [dif_pos hw, dif_pos hfit]
      simp only
      rw [foldlM_eq_none (Dims.half_nonempty _).height_pos
        (Sweep.rowBy_eq_none _ _ h hw hfit _)]
      rfl
    · rw [dif_pos hw, dif_neg hfit]
  · rw [dif_neg hw]

/-- The transform has a result exactly for sources with samples that fit. -/
theorem isSome_toOption_forward (t : Transform maxWidth) (src : Image)
    (dst : BandSet capacity) :
    (t.forward src dst).toOption.isSome
      ↔ src.dims.Nonempty ∧ src.dims.width ≤ maxWidth ∧
        src.dims.half ≤ capacity := by
  unfold forward
  by_cases hw : src.dims.width ≤ maxWidth <;>
    by_cases hfit : src.dims.half ≤ capacity <;>
    by_cases h : src.dims.Nonempty <;>
    simp [hw, hfit, h, Except.toOption]

/-- Where the passes stop nowhere, the machine does what the transform does,
be there samples or not. -/
theorem forwardBy_eq {p : Passes} (t : Transform maxWidth) (src : Image)
    (dst : BandSet capacity) (hrun : p.Run t.filters src) :
    t.forwardBy p src dst = (t.forward src dst).toOption := by
  by_cases h : src.dims.Nonempty
  · exact t.forwardBy_of_nonempty src dst h hrun
  · have hnone := mt (fun hsome => ((t.isSome_toOption_forward src dst).1
      hsome).1) h
    rw [t.forwardBy_eq_none dst h, Option.not_isSome_iff_eq_none.1 hnone]

-- =============================================================== plain passes

/-- Passes that check nothing. -/
def Passes.plain : Passes where
  column t x := some (pass t x)
  row _ t x := some (pass t x)

/-- They stop nowhere: what is left are the look-ups. -/
theorem Passes.plain_run (f : FilterBank) (src : Image) :
    Passes.plain.Run f src where
  columns _ _ _ _ := rfl
  rows _ _ _ _ := rfl

end Transform

end AdditiveDetail

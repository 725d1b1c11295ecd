/-
Pictures, seen two ways.

A `Raster` is a picture as a function: a value at each row and column of
its size and nothing outside, so an index out of range cannot be
written down. Filters and rules are stated on rasters.

A `Grid` is a picture as storage: its cells in row order, one row after
the other at a fixed stride. A smaller picture occupies the top left
corner, a WINDOW of the grid; writing a window leaves every other cell
as it was. `get_write` says this, and it is all that the stages need to
know about storage.
-/
import AdditiveDetail.Dims

namespace AdditiveDetail

/-- A value at each row and column of a picture of size `d`. -/
abbrev Raster (α : Type) (d : Dims) := Fin d.height → Fin d.width → α

/-- A picture of integers that carries its size. -/
structure Image where
  dims : Dims
  sample : Raster Int dims

/-- Cells in row order. -/
structure Grid (α : Type) (d : Dims) where
  cells : Vector α (d.height * d.width)

namespace Grid

variable {α : Type} {c d : Dims}

-- ========================================================== cell positions

theorem position_lt {h w i j : Nat} (hi : i < h) (hj : j < w) :
    i * w + j < h * w :=
  calc i * w + j < i * w + w := Nat.add_lt_add_left hj _
    _ = (i + 1) * w := (Nat.succ_mul i w).symm
    _ ≤ h * w := Nat.mul_le_mul_right w hi

theorem div_width_lt {h w k : Nat} (hk : k < h * w) : k / w < h :=
  Nat.div_lt_of_lt_mul (Nat.lt_of_lt_of_eq hk (Nat.mul_comm h w))

/-- Where the cell of a row and a column is stored. -/
@[inline]
def position (i : Fin d.height) (j : Fin d.width) :
    Fin (d.height * d.width) :=
  ⟨i * d.width + j, position_lt i.isLt j.isLt⟩

/-- Different cells are stored at different places. -/
theorem position_inj {i i' : Fin d.height} {j j' : Fin d.width}
    (h : position i j = position i' j') : i = i' ∧ j = j' := by
  have hv : i.val * d.width + j.val = i'.val * d.width + j'.val :=
    congrArg Fin.val h
  have hj : j.val = j'.val := by
    have hmod := congrArg (· % d.width) hv
    simpa [Nat.mul_add_mod_of_lt, Nat.add_mod, Nat.mod_eq_of_lt j.isLt,
      Nat.mod_eq_of_lt j'.isLt] using hmod
  have hw : 0 < d.width := Nat.lt_of_le_of_lt (Nat.zero_le _) j.isLt
  have hi : i.val * d.width = i'.val * d.width := by omega
  exact ⟨Fin.ext (Nat.eq_of_mul_eq_mul_right hw hi), Fin.ext hj⟩

-- ======================================================= reading and writing

/-- The value at a row and a column. -/
@[inline]
def get (g : Grid α d) (i : Fin d.height) (j : Fin d.width) : α :=
  g.cells[position i j]

/-- Put one value. -/
@[inline]
def set (g : Grid α d) (i : Fin d.height) (j : Fin d.width) (x : α) :
    Grid α d :=
  ⟨g.cells.set (position i j) x (position i j).isLt⟩

/-- All cells alike. -/
def fill (d : Dims) (x : α) : Grid α d :=
  ⟨Vector.replicate _ x⟩

/-- Store a raster. -/
@[specialize]
def ofRaster (f : Raster α d) : Grid α d :=
  ⟨Vector.ofFn fun k =>
    have hpos : 0 < d.width := by
      rcases Nat.eq_zero_or_pos d.width with h | h
      · exact absurd k.isLt (by simp [h])
      · exact h
    f ⟨k / d.width, div_width_lt k.isLt⟩ ⟨k % d.width, Nat.mod_lt _ hpos⟩⟩

/-- Put the first `w` cells of a row. -/
@[specialize]
def writeRow (g : Grid α c) (i : Fin c.height) (w : Nat) (hw : w ≤ c.width)
    (f : Fin w → α) : Grid α c :=
  Fin.foldl w (fun g j => g.set i (j.castLE hw) (f j)) g

/-- Put the rows of the window of size `d` one after the other. -/
@[specialize]
def writeRows (g : Grid α c) (d : Dims) (h : d ≤ c) (f : Raster α d) :
    Grid α c :=
  Fin.foldl d.height
    (fun g i => g.writeRow (i.castLE h.2) d.width h.1 (f i)) g

/-- Put the window of size `d`. Rows without cells are not walked. -/
@[specialize]
def write (g : Grid α c) (d : Dims) (h : d ≤ c) (f : Raster α d) :
    Grid α c :=
  if d.Nonempty then g.writeRows d h f else g

/-- The window of size `d`. -/
@[inline]
def window (g : Grid α c) (d : Dims) (h : d ≤ c) : Raster α d :=
  fun i j => g.get (i.castLE h.2) (j.castLE h.1)

/-- All cells in row order. -/
def toList (g : Grid α d) : List α := g.cells.toList

-- =========================================================== what they show

@[ext]
theorem ext {g g' : Grid α d} (h : ∀ i j, g.get i j = g'.get i j) :
    g = g' := by
  obtain ⟨v⟩ := g
  obtain ⟨v'⟩ := g'
  congr 1
  apply Vector.ext
  intro k hk
  have hpos : 0 < d.width := by
    rcases Nat.eq_zero_or_pos d.width with h0 | h0
    · exact absurd hk (by simp [h0])
    · exact h0
  have := h ⟨k / d.width, div_width_lt hk⟩ ⟨k % d.width, Nat.mod_lt _ hpos⟩
  simpa [get, position, Nat.div_add_mod'] using this

@[simp]
theorem get_fill (x : α) (i : Fin d.height) (j : Fin d.width) :
    (fill d x).get i j = x := by
  simp [get, fill]

theorem get_set (g : Grid α d) (i i' : Fin d.height) (j j' : Fin d.width)
    (x : α) :
    (g.set i j x).get i' j' = if i' = i ∧ j' = j then x else g.get i' j' := by
  simp only [get, set, Fin.getElem_fin, Vector.getElem_set]
  by_cases h : i' = i ∧ j' = j
  · obtain ⟨rfl, rfl⟩ := h
    simp
  · have hne : (position i j).val ≠ (position i' j').val := by
      intro he
      have := position_inj (Fin.ext he)
      exact h ⟨this.1.symm, this.2.symm⟩
    simp [h, hne]

@[simp]
theorem get_ofRaster (f : Raster α d) (i : Fin d.height) (j : Fin d.width) :
    (ofRaster f).get i j = f i j := by
  have hw : 0 < d.width := Nat.lt_of_le_of_lt (Nat.zero_le _) j.isLt
  simp only [get, ofRaster, position, Fin.getElem_fin, Vector.getElem_ofFn]
  congr 1
  · congr 1
    show (i.val * d.width + j.val) / d.width = i.val
    rw [Nat.mul_comm, Nat.mul_add_div hw, Nat.div_eq_of_lt j.isLt,
      Nat.add_zero]
  · congr 1
    show (i.val * d.width + j.val) % d.width = j.val
    rw [Nat.mul_comm, Nat.mul_add_mod, Nat.mod_eq_of_lt j.isLt]

theorem get_writeRow (g : Grid α c) (i i' : Fin c.height) (j : Fin c.width)
    (w : Nat) (hw : w ≤ c.width) (f : Fin w → α) :
    (g.writeRow i w hw f).get i' j
      = if h : i' = i ∧ j.val < w then f ⟨j, h.2⟩ else g.get i' j := by
  unfold writeRow
  induction w with
  | zero => simp [Fin.foldl_zero]
  | succ w ih =>
      rw [Fin.foldl_succ_last, get_set]
      have hrec := ih (by omega) fun k => f k.castSucc
      by_cases hi : i' = i
      · by_cases hj : j.val < w
        · have hne : j ≠ (Fin.last w).castLE hw := by
            intro he
            have : j.val = w := congrArg Fin.val he
            omega
          simp only [hi, hne, and_false, if_false]
          simp only [hi, hj, and_self, dif_pos] at hrec
          have hj' : j.val < w + 1 := by omega
          simp only [hj', and_self, dif_pos]
          exact hrec
        · by_cases hjw : j.val = w
          · have he : j = (Fin.last w).castLE hw := Fin.ext hjw
            have hj' : j.val < w + 1 := by omega
            simp only [hi, he, and_self, if_true]
            rw [dif_pos (by simp)]
            congr 1
          · have hne : j ≠ (Fin.last w).castLE hw := by
              intro he
              exact hjw (congrArg Fin.val he)
            have hj' : ¬ j.val < w + 1 := by omega
            simp only [hi, hne, and_false, if_false]
            simp only [hi, hj, and_false, dif_neg, not_false_eq_true] at hrec
            simp only [hj', and_false, dif_neg, not_false_eq_true]
            exact hrec
      · simp only [hi, false_and, if_false, dif_neg, not_false_eq_true]
        simp only [hi, false_and, dif_neg, not_false_eq_true] at hrec
        exact hrec

theorem get_writeRows (g : Grid α c) (d : Dims) (h : d ≤ c) (f : Raster α d)
    (i : Fin c.height) (j : Fin c.width) :
    (g.writeRows d h f).get i j
      = if hij : i.val < d.height ∧ j.val < d.width then
          f ⟨i, hij.1⟩ ⟨j, hij.2⟩
        else g.get i j := by
  obtain ⟨w, n⟩ := d
  unfold writeRows
  simp only at *
  induction n with
  | zero => simp [Fin.foldl_zero]
  | succ n ih =>
      have hn : n + 1 ≤ c.height := h.2
      have hrec := ih ⟨h.1, by show n ≤ c.height; omega⟩ fun k => f k.castSucc
      rw [Fin.foldl_succ_last, get_writeRow]
      by_cases hin : i.val = n
      · have hi : i = (Fin.last n).castLE hn := Fin.ext hin
        by_cases hj : j.val < w
        · have hi' : i.val < n + 1 := by omega
          rw [dif_pos ⟨hi, hj⟩, dif_pos ⟨hi', hj⟩]
          congr 1
          apply Fin.ext
          simp [hin]
        · rw [dif_neg (by simp [hj]), dif_neg (by simp [hj])]
          simp only [hj, and_false, dif_neg, not_false_eq_true] at hrec
          exact hrec
      · have hne : i ≠ (Fin.last n).castLE hn := by
          intro he
          exact hin (congrArg Fin.val he)
        rw [dif_neg (by simp [hne])]
        by_cases hi : i.val < n
        · by_cases hj : j.val < w
          · have hi' : i.val < n + 1 := by omega
            simp only [hi, hj, and_self, dif_pos] at hrec
            rw [dif_pos ⟨hi', hj⟩]
            exact hrec
          · rw [dif_neg (by simp [hj])]
            simp only [hj, and_false, dif_neg, not_false_eq_true] at hrec
            exact hrec
        · have hi' : ¬ i.val < n + 1 := by omega
          rw [dif_neg (by simp [hi'])]
          simp only [hi, false_and, dif_neg, not_false_eq_true] at hrec
          exact hrec

/-- A cell inside the window shows what was written to it, a cell outside
what it held before. -/
theorem get_write (g : Grid α c) (d : Dims) (h : d ≤ c) (f : Raster α d)
    (i : Fin c.height) (j : Fin c.width) :
    (g.write d h f).get i j
      = if hij : i.val < d.height ∧ j.val < d.width then
          f ⟨i, hij.1⟩ ⟨j, hij.2⟩
        else g.get i j := by
  unfold write
  split
  · exact get_writeRows g d h f i j
  · next hd =>
      rw [dif_neg]
      exact fun hij => hd ⟨Nat.zero_lt_of_lt hij.2, Nat.zero_lt_of_lt hij.1⟩

/-- The window shows what was written to it. -/
@[simp]
theorem window_write (g : Grid α c) (d : Dims) (h : d ≤ c)
    (f : Raster α d) : (g.write d h f).window d h = f := by
  funext i j
  have hi : (i.castLE h.2).val < d.height := i.isLt
  have hj : (j.castLE h.1).val < d.width := j.isLt
  simp [window, get_write]

end Grid

/-- The values of a raster, row after row. -/
def Raster.toList {α : Type} {d : Dims} (f : Raster α d) : List α :=
  (Grid.ofRaster f).toList

end AdditiveDetail

/-
Pictures that change in one direction only, or not at all.

# One direction

A filter takes four samples of one value to the product of the value with
the sum of its taps, wherever it stands and whatever is reflected: a
reflected sample has the value of all others. So where the taps of the
high-pass filter cancel, and all rows of a picture are the same, nothing is
left in the bands that are high-pass down the columns, up to the edges;
where all columns are the same, nothing is left in the bands that are
high-pass along the rows. Every band has equal rows, or equal columns, as
the picture has: what is filtered differs from place to place only where
the samples do.

# None

Rows and columns of a flat picture are the same. It has no detail, and its
approximation is flat again.
-/
import Mathlib.Tactic.Ring
import AdditiveDetail.Proofs.Wavelet.Bounds
import AdditiveDetail.Proofs.Wavelet.Decomposition

namespace AdditiveDetail

/-- The taps of a filter cancel. -/
def Taps.Cancels (t : Taps) : Prop := t.t0 + t.t1 + t.t2 + t.t3 = 0

/-- The taps of the high-pass filter in use cancel. -/
theorem FilterBank.daubechies_cancels : daubechies.high.Cancels := by
  unfold Taps.Cancels
  rw [daubechies_eq]
  decide

/-- A filter over four samples of one value. -/
theorem Taps.response_flat (t : Taps) (c : Int) :
    t.response ⟨c, c, c, c⟩ = (t.t0 + t.t1 + t.t2 + t.t3) * c := by
  unfold response
  ring

/-- Four values of a function that has one. -/
theorem Quad.map_const {α β : Type} {g : α → β} {b : β} (h : ∀ a, g a = b)
    (q : Quad α) : q.map g = ⟨b, b, b, b⟩ := by
  unfold map
  simp only [h]

namespace Raster

/-- Nothing is left of samples of one value by a filter that cancels. -/
theorem pass_of_cancels {t : Taps} (ht : t.Cancels) (c : Int) :
    Transform.pass t ⟨c, c, c, c⟩ = 0 := by
  unfold Taps.Cancels at ht
  unfold Transform.pass
  rw [Taps.response_flat, ht, Int.zero_mul]
  rfl

theorem pass_zero (t : Taps) : Transform.pass t ⟨0, 0, 0, 0⟩ = 0 := by
  unfold Transform.pass
  rw [Taps.response_flat, Int.mul_zero]
  rfl

variable {α β : Type} {d : Dims}

/-- All rows are the same. -/
def RowsEqual (x : Raster α d) : Prop := ∀ i i' j, x i j = x i' j

/-- All columns are the same. -/
def ColumnsEqual (x : Raster α d) : Prop := ∀ i j j', x i j = x i j'

theorem RowsEqual.map {x : Raster α d} (hx : x.RowsEqual) (g : α → β) :
    RowsEqual fun i j => g (x i j) :=
  fun i i' j => congrArg g (hx i i' j)

theorem ColumnsEqual.map {x : Raster α d} (hx : x.ColumnsEqual) (g : α → β) :
    ColumnsEqual fun i j => g (x i j) :=
  fun i j j' => congrArg g (hx i j j')

variable {x : Raster Int d} {f : FilterBank}

-- ================================================================== equal rows

/-- A column has one value, which any row shows. -/
theorem RowsEqual.columnFiltered_eq (hx : x.RowsEqual) (h : d.Nonempty)
    (t : Taps) (i : Nat) (r : Fin d.height) (j : Fin d.width) :
    x.columnFiltered h t i j
      = Transform.pass t ⟨x r j, x r j, x r j, x r j⟩ := by
  unfold columnFiltered
  rw [Quad.map_const fun k => hx k r j]

theorem RowsEqual.subBand (hx : x.RowsEqual) (h : d.Nonempty) (band : Band) :
    (x.subBand h f band).RowsEqual := by
  intro i i' j
  unfold Raster.subBand
  simp only [hx.columnFiltered_eq h _ _ ⟨0, h.height_pos⟩]

/-- Nothing is left in a band that is high-pass down the columns. -/
theorem RowsEqual.subBand_high (hx : x.RowsEqual) (h : d.Nonempty)
    (hf : f.high.Cancels) {band : Band} (hband : band.columns = .high)
    (i : Fin d.half.height) (j : Fin d.half.width) :
    x.subBand h f band i j = 0 := by
  have hcolumn (k : Fin d.width) :
      x.columnFiltered h (f.channel band.columns) i k = 0 := by
    rw [hx.columnFiltered_eq h _ _ ⟨0, h.height_pos⟩, hband]
    exact pass_of_cancels hf _
  unfold Raster.subBand
  rw [Quad.map_const fun k => congrArg Int16.toInt (hcolumn k)]
  exact pass_zero _

-- =============================================================== equal columns

theorem ColumnsEqual.columnFiltered_eq (hx : x.ColumnsEqual)
    (h : d.Nonempty) (t : Taps) (i : Nat) (j j' : Fin d.width) :
    x.columnFiltered h t i j = x.columnFiltered h t i j' := by
  have hcolumn : (fun r => x r j) = fun r => x r j' :=
    funext fun r => hx r j j'
  unfold columnFiltered
  rw [hcolumn]

/-- A filtered row has one value, which any column shows. -/
theorem ColumnsEqual.subBand_eq (hx : x.ColumnsEqual) (h : d.Nonempty)
    (band : Band) (i : Fin d.half.height) (j : Fin d.half.width)
    (c : Fin d.width) :
    let a := (x.columnFiltered h (f.channel band.columns) i c).toInt
    x.subBand h f band i j
      = Transform.pass (f.channel band.rows) ⟨a, a, a, a⟩ := by
  unfold Raster.subBand
  rw [Quad.map_const fun k => congrArg Int16.toInt
    (hx.columnFiltered_eq h (f.channel band.columns) i k c)]

theorem ColumnsEqual.subBand (hx : x.ColumnsEqual) (h : d.Nonempty)
    (band : Band) : (x.subBand h f band).ColumnsEqual := by
  intro i j j'
  rw [hx.subBand_eq h band i j ⟨0, h.width_pos⟩,
    hx.subBand_eq h band i j' ⟨0, h.width_pos⟩]

/-- Nothing is left in a band that is high-pass along the rows. -/
theorem ColumnsEqual.subBand_high (hx : x.ColumnsEqual) (h : d.Nonempty)
    (hf : f.high.Cancels) {band : Band} (hband : band.rows = .high)
    (i : Fin d.half.height) (j : Fin d.half.width) :
    x.subBand h f band i j = 0 := by
  rw [hx.subBand_eq h band i j ⟨0, h.width_pos⟩, hband]
  exact pass_of_cancels hf _

-- =============================================================== flat pictures

variable {c : Int}

/-- Every sample has the value. -/
def Flat (x : Raster Int d) (c : Int) : Prop := ∀ i j, x i j = c

theorem Flat.rowsEqual (hx : x.Flat c) : x.RowsEqual :=
  fun i i' j => (hx i j).trans (hx i' j).symm

theorem Flat.columnsEqual (hx : x.Flat c) : x.ColumnsEqual :=
  fun i j j' => (hx i j).trans (hx i j').symm

/-- A picture that changes in neither direction. -/
theorem RowsEqual.exists_flat (hx : x.RowsEqual) (hx' : x.ColumnsEqual)
    (h : d.Nonempty) : ∃ c, x.Flat c :=
  ⟨x ⟨0, h.height_pos⟩ ⟨0, h.width_pos⟩,
    fun i j => (hx i _ j).trans (hx' _ j _)⟩

/-- A flat picture has no detail. -/
theorem Flat.subBand_detail (hx : x.Flat c) (h : d.Nonempty)
    (hf : f.high.Cancels) (o : Orientation) :
    x.subBand h f (.detail o) = fun _ _ => 0 := by
  funext i j
  cases o with
  | horizontal => exact hx.rowsEqual.subBand_high h hf rfl i j
  | vertical => exact hx.columnsEqual.subBand_high h hf rfl i j
  | diagonal => exact hx.rowsEqual.subBand_high h hf rfl i j

/-- The approximation of a flat picture is flat. -/
theorem Flat.subBand_approximation (hx : x.Flat c) (h : d.Nonempty) :
    ∃ c', Flat (fun i j => (x.subBand h f .approximation i j).toInt) c' :=
  ((hx.rowsEqual.subBand h _).map Int16.toInt).exists_flat
    ((hx.columnsEqual.subBand h _).map Int16.toInt) d.half_nonempty

end Raster

end AdditiveDetail

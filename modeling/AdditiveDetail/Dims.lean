/-
Sizes of pictures and of their sub-bands, and the pyramid of sizes that
repeated halving gives.

Sizes are compared axis by axis: `d ≤ c` says that a picture of size `d`
fits into the top left corner of a buffer of size `c`.
-/

namespace AdditiveDetail

/-- Width and height of a picture, in samples. -/
structure Dims where
  width : Nat
  height : Nat
  deriving DecidableEq, Inhabited

namespace Dims

instance : LE Dims := ⟨fun d c => d.width ≤ c.width ∧ d.height ≤ c.height⟩

instance (d c : Dims) : Decidable (d ≤ c) :=
  inferInstanceAs (Decidable (d.width ≤ c.width ∧ d.height ≤ c.height))

theorem width_le {d c : Dims} (h : d ≤ c) : d.width ≤ c.width := h.1

theorem height_le {d c : Dims} (h : d ≤ c) : d.height ≤ c.height := h.2

theorem le_refl (d : Dims) : d ≤ d := ⟨Nat.le_refl _, Nat.le_refl _⟩

/-- Neither axis is empty. -/
structure Nonempty (d : Dims) : Prop where
  width_pos : 0 < d.width
  height_pos : 0 < d.height

instance (d : Dims) : Decidable d.Nonempty :=
  decidable_of_iff (0 < d.width ∧ 0 < d.height)
    ⟨fun ⟨a, b⟩ => ⟨a, b⟩, fun ⟨a, b⟩ => ⟨a, b⟩⟩

/-- Number of samples. -/
def area (d : Dims) : Nat := d.width * d.height

/-- The size after one decomposition: each axis halved, rounded up, and
never below one. -/
def half (d : Dims) : Dims where
  width := max 1 ((d.width + 1) / 2)
  height := max 1 ((d.height + 1) / 2)

/-- The size of the sub-bands at a scale, counted from zero. -/
def atScale (d : Dims) : Nat → Dims
  | 0 => d.half
  | k + 1 => (d.atScale k).half

/-- Number of decompositions that are scored. -/
def scaleCount : Nat := 4

/-- The sizes of the sub-bands at all scales. -/
def pyramid (d : Dims) : List Dims :=
  (List.range scaleCount).map d.atScale

/-- The size as text: `WIDTHxHEIGHT`. -/
def text (d : Dims) : String :=
  toString d.width ++ "x" ++ toString d.height

-- ==================================================== halving is never empty

theorem half_nonempty (d : Dims) : d.half.Nonempty where
  width_pos := by simp only [half]; omega
  height_pos := by simp only [half]; omega

theorem half_le {d : Dims} (h : d.Nonempty) : d.half ≤ d := by
  have hw := h.width_pos
  have hh := h.height_pos
  constructor <;> simp only [half] <;> omega

end Dims

end AdditiveDetail

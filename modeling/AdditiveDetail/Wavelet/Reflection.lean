/-
How filters read past the edge of a picture: the picture is continued by
its own reflection. An index is reflected at zero, and one at or past the
far edge is reflected there, so that the last sample is repeated but the
first is not. The whole pattern repeats with twice the size as period,
which keeps a window in bounds even where it is wider than the picture.
-/

namespace AdditiveDetail

/-- The sample that stands at index `i` of a continued row of `n`
samples. -/
def reflect (i : Int) (n : Nat) : Nat :=
  if n ≤ 1 then 0
  else
    let m := i.natAbs % (2 * n)
    if m < n then m else 2 * n - 1 - m

/-- A reflected index is in bounds. -/
theorem reflect_lt (i : Int) {n : Nat} (h : 0 < n) : reflect i n < n := by
  unfold reflect
  have hmod : i.natAbs % (2 * n) < 2 * n := Nat.mod_lt _ (by omega)
  split
  · exact h
  · simp only
    split <;> omega

/-- Reflection as an index into a row that is not empty. -/
@[inline]
def reflectIn (i : Int) {n : Nat} (h : 0 < n) : Fin n :=
  ⟨reflect i n, reflect_lt i h⟩

end AdditiveDetail

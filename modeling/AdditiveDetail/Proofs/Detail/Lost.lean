/-
Detail that is lost, and detail that was not there.

The vector zero is within the angle of every vector: the inner product and
one of the squared lengths are zero, and zero is at most zero. So where the
reference or the distorted detail is zero the distorted coefficients are
their own candidates: all of them is restored, whatever it is, and nothing
is added. Masking then hides nothing, and the numerator sees the distorted
detail as the denominator sees the reference detail.
-/
import AdditiveDetail.Proofs.Detail.Identity

namespace AdditiveDetail

open Binary

/-- The vector zero is within the angle of every vector, and every vector
within the angle of it. -/
theorem withinAngle_zero {oh ov th tv : Int16}
    (h : oh = 0 ∧ ov = 0 ∨ th = 0 ∧ tv = 0) :
    withinAngle oh.toInt ov.toInt th.toInt tv.toInt cosSquaredLimit = true := by
  obtain ⟨r, hr, hr0, hrle⟩ := squares_denote oh ov
  obtain ⟨t, ht, ht0, htle⟩ := squares_denote th tv
  obtain ⟨w, hw0, hwr, hleft⟩ :=
    weighted_squares_denote hr hr0 hrle ht ht0 htle
  have hzero : (ofInt 0 : Binary32).Denotes 0 := by
    exact_mod_cast ofInt_denotes_self (f := .binary32) (i := 0) (by decide)
      (by decide) (by decide)
  have hinner : oh.toInt * th.toInt + ov.toInt * tv.toInt = 0 := by
    rcases h with ⟨rfl, rfl⟩ | ⟨rfl, rfl⟩ <;> simp
  have hwt : w * t = 0 := by
    rcases h with ⟨rfl, rfl⟩ | ⟨rfl, rfl⟩
    · obtain rfl : r = 0 := hr.unique hzero
      rw [le_antisymm hwr hw0, zero_mul]
    · obtain rfl : t = 0 := ht.unique hzero
      rw [mul_zero]
  have hright := hzero.mul hzero
    (abs_le_limit_of_le_square (by norm_num) (by norm_num))
  unfold withinAngle
  rw [hinner, Bool.and_eq_true]
  constructor
  · exact ((zero_denotes false).atMost_iff hzero).2 le_rfl
  · apply (hleft.atMost_iff hright).2
    rw [hwt, mul_zero]

namespace Detail

variable {d : Dims} {x y : Detail d}

/-- Where one of two details is zero the distorted one is restored as it is. -/
theorem split_of_zero (h : x = zero d ∨ y = zero d) (i : Fin d.height)
    (j : Fin d.width) (o : Orientation) :
    (x.split y i j).get o = ⟨y o i j, 0⟩ := by
  have hagree : withinAngle (x .horizontal i j).toInt (x .vertical i j).toInt
      (y .horizontal i j).toInt (y .vertical i j).toInt cosSquaredLimit
        = true := by
    apply withinAngle_zero
    rcases h with rfl | rfl
    · exact .inl ⟨rfl, rfl⟩
    · exact .inr ⟨rfl, rfl⟩
  calc (x.split y i j).get o = ⟨(y.place i j).get o, 0⟩ :=
        Split.ofDetails_of_withinAngle (x := x.place i j) (y := y.place i j)
          hagree o
    _ = ⟨y o i j, 0⟩ := by rw [place, Details.get_ofFn]

theorem restored_of_zero (h : x = zero d ∨ y = zero d) : x.restored y = y := by
  funext o i j
  exact congrArg Split.restored (split_of_zero h i j o)

theorem impairment_of_zero (h : x = zero d ∨ y = zero d) :
    x.impairment y = zero d := by
  funext o i j
  exact congrArg Split.impairment (split_of_zero h i j o)

end Detail

end AdditiveDetail

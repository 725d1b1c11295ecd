/-
Lists in pieces of one length.

# Put together and cut apart

Where pieces of one length stand one after the other, piece `i` starts at
`i` times the length (`drop_flatMap`), and so many elements from there are
that piece and nothing else (`piece_flatMap`). The other way round, the
first pieces of any list make up a first part of it
(`flatten_first_chunks`).
-/
import Mathlib.Data.List.Basic

namespace AdditiveDetail

variable {α β : Type}

/-- So many pieces of one length have that many elements. -/
theorem length_flatMap_pieces {f : α → List β} {size : Nat} {xs : List α}
    (hsize : ∀ x ∈ xs, (f x).length = size) :
    (xs.flatMap f).length = xs.length * size := by
  rw [List.length_flatMap, List.map_congr_left hsize, List.map_const',
    List.sum_replicate_nat]

/-- Behind the first `i` pieces stand the other pieces. -/
theorem drop_flatMap {f : α → List β} {size : Nat} {xs : List α}
    (hsize : ∀ x ∈ xs, (f x).length = size) (i : Nat) :
    (xs.flatMap f).drop (i * size) = (xs.drop i).flatMap f := by
  induction i generalizing xs with
  | zero => rw [Nat.zero_mul, List.drop_zero, List.drop_zero]
  | succ i ih =>
      cases xs with
      | nil => rw [List.flatMap_nil, List.drop_nil, List.drop_nil]; rfl
      | cons x rest =>
          have hx : (f x).length = size := hsize x List.mem_cons_self
          have hrest := ih fun y hy => hsize y (List.mem_cons_of_mem x hy)
          rw [List.flatMap_cons, List.drop_succ_cons, ← hrest, Nat.succ_mul,
            Nat.add_comm, ← List.drop_drop, List.drop_left' hx]

/-- Piece `i` stands at `i` times the length of a piece. -/
theorem piece_flatMap {f : α → List β} {size : Nat} {xs : List α}
    (hsize : ∀ x ∈ xs, (f x).length = size) {i : Nat} (hi : i < xs.length) :
    ((xs.flatMap f).drop (i * size)).take size = f xs[i] := by
  rw [drop_flatMap hsize, List.drop_eq_getElem_cons hi, List.flatMap_cons]
  exact List.take_left' (hsize _ (List.getElem_mem hi))

/-- The first pieces of a list are a first part of it. -/
theorem flatten_first_chunks (size : Nat) (xs : List α) (k : Nat) :
    ((List.range k).map fun i => (xs.drop (i * size)).take size).flatten
      = xs.take (k * size) := by
  induction k with
  | zero => simp
  | succ k ih =>
      rw [List.range_succ, List.map_append, List.flatten_append, ih,
        Nat.succ_mul, List.take_add]
      simp

/-- A map of which no step fails. -/
theorem mapM_eq_map {ε : Type} {g : α → Except ε β} {f : α → β}
    {xs : List α} (h : ∀ x ∈ xs, g x = .ok (f x)) :
    xs.mapM g = .ok (xs.map f) := by
  induction xs with
  | nil => rfl
  | cons x rest ih =>
      rw [List.mapM_cons, h x List.mem_cons_self,
        ih fun y hy => h y (List.mem_cons_of_mem x hy)]
      rfl

end AdditiveDetail

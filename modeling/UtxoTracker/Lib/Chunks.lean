import Mathlib.Data.List.Basic
/-!
# Cutting a list into chunks

The list in order, in pieces of one length, the last piece the shorter one.
-/

namespace Chunks

variable {α : Type*}

/-- The chunks of `size` elements; a size of 0 counts as 1. -/
def chunks (size : Nat) (xs : List α) : List (List α) :=
  match xs with
  | [] => []
  | x :: rest => (x :: rest).take (max 1 size) :: chunks size ((x :: rest).drop (max 1 size))
termination_by xs.length
decreasing_by
  rw [List.length_drop, List.length_cons]
  omega

@[simp] theorem flatten_chunks (size : Nat) (xs : List α) : (chunks size xs).flatten = xs := by
  induction xs using chunks.induct size with
  | case1 => simp [chunks]
  | case2 x rest ih => rw [chunks, List.flatten_cons, ih, List.take_append_drop]

theorem ne_nil_of_mem_chunks {size : Nat} {xs : List α} : ∀ piece ∈ chunks size xs, piece ≠ [] := by
  induction xs using chunks.induct size with
  | case1 => simp [chunks]
  | case2 x rest ih =>
      intro piece hmem
      rw [chunks] at hmem
      rcases List.mem_cons.mp hmem with rfl | hin
      · have hpos : max 1 size ≠ 0 := by omega
        intro hnil
        rw [List.take_eq_nil_iff] at hnil
        exact hnil.elim hpos (List.cons_ne_nil x rest)
      · exact ih piece hin

theorem chunks_append {size : Nat} {first rest : List α} (hsize : 0 < size)
    (hfirst : first.length = size) : chunks size (first ++ rest) = first :: chunks size rest := by
  cases first with
  | nil => simp only [List.length_nil] at hfirst; omega
  | cons x xs =>
      have hmax : max 1 size = (x :: xs).length := by omega
      rw [List.cons_append, chunks, ← List.cons_append, hmax, List.take_left, List.drop_left]

/-- Pieces of one length are found again. -/
theorem chunks_flatten {size : Nat} {pieces : List (List α)} (hsize : 0 < size)
    (hlength : ∀ piece ∈ pieces, piece.length = size) : chunks size pieces.flatten = pieces := by
  induction pieces with
  | nil => simp [chunks]
  | cons piece pieces ih =>
      rw [List.flatten_cons, chunks_append hsize (hlength piece List.mem_cons_self),
        ih fun other hmem => hlength other (List.mem_cons_of_mem _ hmem)]

theorem length_flatten_of_mem {size : Nat} {pieces : List (List α)}
    (hlength : ∀ piece ∈ pieces, piece.length = size) :
    pieces.flatten.length = pieces.length * size := by
  induction pieces with
  | nil => simp
  | cons piece pieces ih =>
      rw [List.flatten_cons, List.length_append, hlength piece List.mem_cons_self,
        ih fun other hmem => hlength other (List.mem_cons_of_mem _ hmem), List.length_cons,
        Nat.succ_mul, Nat.add_comm]

end Chunks

import Mathlib.Order.Basic
import UtxoTracker.Lib.Fallible
/-!
# Loops over a range in pieces

A cursor runs from the first number of a range past its last, `size` numbers a round; the last round
takes what is left. What one round keeps, the whole loop keeps.
-/

namespace RangeLoop

open Fallible

variable {σ ε : Type*}

/-- The last number of the round that starts at `cursor`; a size of 0 counts as 1. -/
def pieceEnd (size cursor last : Nat) : Nat := min (cursor + max 1 size - 1) last

variable {size cursor last : Nat}

theorem le_pieceEnd (hle : cursor ≤ last) : cursor ≤ pieceEnd size cursor last := by
  unfold pieceEnd
  omega

theorem pieceEnd_le : pieceEnd size cursor last ≤ last := Nat.min_le_right _ _

/-- The rounds of the loop, each with its first and last number. -/
def run (size : Nat) (body : Nat → Nat → σ → Except ε σ) (cursor last : Nat) (s : σ) :
    Except ε σ :=
  if cursor ≤ last then do
    let s ← body cursor (pieceEnd size cursor last) s
    run size body (pieceEnd size cursor last + 1) last s
  else .ok s
termination_by last + 1 - cursor
decreasing_by
  have : cursor ≤ pieceEnd size cursor last := le_pieceEnd ‹_›
  omega

/-- The pieces that the rounds take. -/
def pieces (size cursor last : Nat) : List (Nat × Nat) :=
  if cursor ≤ last then
    (cursor, pieceEnd size cursor last) :: pieces size (pieceEnd size cursor last + 1) last
  else []
termination_by last + 1 - cursor
decreasing_by
  have : cursor ≤ pieceEnd size cursor last := le_pieceEnd ‹_›
  omega

theorem pieces_of_le (hle : cursor ≤ last) : pieces size cursor last =
    (cursor, pieceEnd size cursor last) :: pieces size (pieceEnd size cursor last + 1) last := by
  rw [pieces, if_pos hle]

/-- The pieces lie in the range. -/
theorem mem_pieces {piece : Nat × Nat} (hmem : piece ∈ pieces size cursor last) :
    cursor ≤ piece.1 ∧ piece.1 ≤ piece.2 ∧ piece.2 ≤ last := by
  induction cursor using pieces.induct size last with
  | case1 cursor hin ih =>
      rw [pieces_of_le hin] at hmem
      have hle : cursor ≤ pieceEnd size cursor last := le_pieceEnd hin
      rcases List.mem_cons.mp hmem with rfl | hrest
      · exact ⟨Nat.le_refl _, hle, pieceEnd_le⟩
      · obtain ⟨hfirst, hrest⟩ := ih hrest
        exact ⟨by omega, hrest⟩
  | case2 cursor hout =>
      rw [pieces, if_neg hout] at hmem
      cases hmem

/-- A piece ends before the next one starts. -/
theorem pieces_pairwise :
    (pieces size cursor last).Pairwise fun piece next => piece.2 < next.1 := by
  induction cursor using pieces.induct size last with
  | case1 cursor hin ih =>
      rw [pieces_of_le hin]
      refine .cons ?_ ih
      intro next hmem
      exact (mem_pieces hmem).1
  | case2 cursor hout =>
      rw [pieces, if_neg hout]
      exact .nil

variable {body : Nat → Nat → σ → Except ε σ} {s s' : σ}

/-- **The invariant of a loop**: it holds up to the cursor, and at the end up to the last number. -/
theorem run_induct (holds : Nat → σ → Prop) (hrun : run size body cursor last s = .ok s')
    (hstart : holds cursor s) (hle : cursor ≤ last + 1)
    (hstep : ∀ first stop s s', (first, stop) ∈ pieces size cursor last → holds first s →
      body first stop s = .ok s' → holds (stop + 1) s') : holds (last + 1) s' := by
  induction cursor using pieces.induct size last generalizing s with
  | case1 cursor hin ih =>
      rw [run, if_pos hin, bind_eq_ok_iff] at hrun
      rw [pieces_of_le hin] at hstep
      obtain ⟨next, hbody, hrest⟩ := hrun
      have hnext := hstep cursor _ s next List.mem_cons_self hstart hbody
      apply ih hrest hnext (Nat.succ_le_succ pieceEnd_le)
      intro first stop s s' hpiece
      exact hstep first stop s s' (List.mem_cons_of_mem _ hpiece)
  | case2 cursor hout =>
      rw [run, if_neg hout, Except.ok.injEq] at hrun
      obtain rfl : cursor = last + 1 := by omega
      rwa [← hrun]

/-- **A loop succeeds** when every round does that starts where the invariant holds. -/
theorem run_ok (holds : Nat → σ → Prop) (hstart : holds cursor s)
    (hstep : ∀ first stop s, (first, stop) ∈ pieces size cursor last → holds first s →
      ∃ s', body first stop s = .ok s' ∧ holds (stop + 1) s') :
    ∃ s', run size body cursor last s = .ok s' := by
  induction cursor using pieces.induct size last generalizing s with
  | case1 cursor hin ih =>
      rw [pieces_of_le hin] at hstep
      obtain ⟨next, hbody, hnext⟩ := hstep cursor _ s List.mem_cons_self hstart
      obtain ⟨s', hrest⟩ := ih hnext fun first stop s hpiece =>
        hstep first stop s (List.mem_cons_of_mem _ hpiece)
      refine ⟨s', ?_⟩
      rw [run, if_pos hin, bind_of_ok hbody]
      exact hrest
  | case2 cursor hout => exact ⟨s, by rw [run, if_neg hout]⟩

end RangeLoop

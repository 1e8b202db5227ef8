import Mathlib.Logic.Basic
import Mathlib.Tactic.SplitIfs
/-!
# Computations that may fail

When a sequence of fallible steps succeeds, every step does.
-/

namespace Fallible

universe u v w

variable {ε : Type u} {α β : Type v}

theorem bind_eq_ok_iff {x : Except ε α} {f : α → Except ε β} {b : β} :
    (x >>= f) = .ok b ↔ ∃ a, x = .ok a ∧ f a = .ok b := by
  cases x with
  | error e =>
      refine iff_of_false (fun h => nomatch h) ?_
      rintro ⟨a, ha, -⟩
      cases ha
  | ok a =>
      constructor
      · intro hrun
        exact ⟨a, rfl, hrun⟩
      · rintro ⟨a', ha, hrun⟩
        cases ha
        exact hrun

theorem bind_of_ok {x : Except ε α} {a : α} (hx : x = .ok a) (f : α → Except ε β) :
    (x >>= f) = f a := by
  rw [hx]
  rfl

/-- A check that fails when `p` holds. -/
theorem ite_error_eq_ok_iff {p : Prop} [Decidable p] {e : ε} {x : Except ε α} {a : α} :
    (if p then .error e else x) = .ok a ↔ ¬p ∧ x = .ok a := by
  split_ifs with hp
  · apply iff_of_false
    · intro hok
      cases hok
    · rintro ⟨hnot, -⟩
      exact hnot hp
  · exact (and_iff_right hp).symm

theorem eq_ok_of_toOption {x : Except ε α} {a : α} (hvalue : x.toOption = some a) : x = .ok a := by
  cases x with
  | error e => cases hvalue
  | ok b => exact congrArg Except.ok (Option.some.inj hvalue)

theorem mapError_eq_ok_iff {ε' : Type w} {f : ε → ε'} {x : Except ε α} {a : α} :
    x.mapError f = .ok a ↔ x = .ok a := by
  cases x with
  | ok b =>
      constructor
      · intro h
        exact congrArg Except.ok (Except.ok.inj h)
      · intro h
        exact congrArg Except.ok (Except.ok.inj h)
  | error e =>
      apply iff_of_false
      · intro h
        cases h
      · intro h
        cases h

theorem mapM_eq_ok {ε α β : Type} {f : α → Except ε β} {as : List α} {bs : List β}
    (hmap : as.map f = bs.map Except.ok) : as.mapM f = .ok bs := by
  induction as generalizing bs with
  | nil =>
      obtain rfl : bs = [] := List.map_eq_nil_iff.mp hmap.symm
      rfl
  | cons a as ih =>
      cases bs with
      | nil => cases hmap
      | cons b bs =>
          obtain ⟨hhead, htail⟩ := List.cons.inj hmap
          rw [List.mapM_cons, hhead, bind_of_ok rfl, ih htail]
          rfl

end Fallible

import Mathlib.Data.Nat.Notation
/-!
# Streaks

A streak counts failures while they stay at one key. A failure at another key starts a new one, and
a failure that is not counted leaves it where it is.
-/

/-- The key that is failing, and how often it failed. -/
structure Streak (κ : Type*) where
  key : Option κ
  count : ℕ
  deriving DecidableEq, Repr

namespace Streak

variable {κ : Type*} [DecidableEq κ]

def note (streak : Streak κ) (key : κ) (counted : Bool) : Streak κ :=
  if streak.key = some key then
    if counted then ⟨some key, streak.count + 1⟩ else streak
  else ⟨some key, if counted then 1 else 0⟩

/-- Every failure that the streak counts is in the tally of its key. -/
def BackedBy (tally : κ → ℕ) (streak : Streak κ) : Prop :=
  ∀ key, streak.key = some key → streak.count ≤ tally key

omit [DecidableEq κ] in
theorem BackedBy.mono {tally tally' : κ → ℕ} {streak : Streak κ} (hbacked : streak.BackedBy tally)
    (hle : ∀ key, tally key ≤ tally' key) : streak.BackedBy tally' :=
  fun key hkey => Nat.le_trans (hbacked key hkey) (hle key)

omit [DecidableEq κ] in
theorem backedBy_none (tally : κ → ℕ) (count : ℕ) : (⟨none, count⟩ : Streak κ).BackedBy tally :=
  fun _ hkey => nomatch hkey

/-- A streak stays backed when the tally takes in each failure it counts. -/
theorem BackedBy.note {tally tally' : κ → ℕ} {streak : Streak κ} {key : κ} {counted : Bool}
    (hbacked : streak.BackedBy tally) (hle : ∀ key, tally key ≤ tally' key)
    (hcounted : counted = true → tally key + 1 ≤ tally' key) :
    (streak.note key counted).BackedBy tally' := by
  unfold Streak.note
  by_cases hkey : streak.key = some key
  · rw [if_pos hkey]
    cases counted with
    | false => exact hbacked.mono hle
    | true =>
        rintro _ ⟨rfl⟩
        have hold := hbacked key hkey
        have hnew := hcounted rfl
        exact Nat.le_trans (Nat.succ_le_succ hold) hnew
  · rw [if_neg hkey]
    rintro _ ⟨rfl⟩
    cases counted with
    | false => exact Nat.zero_le _
    | true => exact Nat.le_trans (Nat.le_add_left 1 _) (hcounted rfl)

end Streak

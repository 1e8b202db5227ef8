import Mathlib.Data.List.Nodup
/-!
# A key that is created again

The history of one key, newest change first, read in two ways. A store overwrites the key, and a
spend erases it; a spend that comes with a creation takes that creation back and leaves what was
there before. A join pairs each spend with a creation, the earliest first, and keeps the last creation
that is left. The readings differ where a creation over a live key, or one taken back, is counted.
-/

namespace Recreation

variable {α : Type*}

structure Change (α : Type*) where
  created : Option α
  spent : Bool

/-- What an overwriting store holds. -/
def overwriting : List (Change α) → Option α
  | [] => none
  | change :: rest =>
      match change.created, change.spent with
      | some value, false => some value
      | none, true => none
      | _, _ => overwriting rest

/-- Every value the key was created with, the oldest first. -/
def creations : List (Change α) → List α
  | [] => []
  | change :: rest => creations rest ++ change.created.toList

def spends : List (Change α) → Nat
  | [] => 0
  | change :: rest => spends rest + if change.spent then 1 else 0

/-- What is left of the creations once the spends cancelled as many. -/
def joined (history : List (Change α)) : Option α :=
  ((creations history).drop (spends history)).getLast?

/-- A spend finds the key, in the store or in its own change. -/
def Valid : List (Change α) → Prop
  | [] => True
  | change :: rest =>
      (change.spent = true → change.created.isSome ∨ (overwriting rest).isSome) ∧ Valid rest

/-- How often a live key was created again and kept. -/
def overwrites : List (Change α) → Nat
  | [] => 0
  | change :: rest =>
      overwrites rest +
        if change.created.isSome ∧ change.spent = false ∧ (overwriting rest).isSome then 1 else 0

/-- A creation was taken back since the key was last created and kept, or erased. -/
def takenBack : List (Change α) → Bool
  | [] => false
  | change :: rest =>
      match change.created, change.spent with
      | some _, true => true
      | none, false => takenBack rest
      | _, _ => false

variable {history : List (Change α)}

/-- **Creations pay for the spends**, the live key and the overwrites. -/
theorem length_creations (hvalid : Valid history) :
    (creations history).length =
      spends history + overwrites history + if (overwriting history).isSome then 1 else 0 := by
  induction history with
  | nil => rfl
  | cons change rest ih =>
      obtain ⟨hspent, hrest⟩ := hvalid
      have hbefore := ih hrest
      rcases change with ⟨created, spent⟩
      rcases hlive : overwriting rest with _ | live <;> rw [hlive] at hbefore hspent <;>
        rcases created with _ | value <;> rcases spent with _ | _
      all_goals
        simp only [creations, spends, overwrites, overwriting, hlive, List.length_append,
          Option.toList_none, Option.toList_some, List.length_nil, List.length_singleton,
          Option.isSome_none, Option.isSome_some, if_true, if_false, Bool.false_eq_true,
          Bool.true_eq_false, and_false, and_self, or_self, and_true, forall_const] at hbefore hspent ⊢
          <;> omega

/-- The join keeps the last creation unless every creation was spent. -/
theorem joined_eq (hvalid : Valid history) :
    joined history =
      if overwrites history = 0 ∧ overwriting history = none then none
      else (creations history).getLast? := by
  have hlength := length_creations hvalid
  have hleft : joined history =
      if (creations history).length ≤ spends history then none else (creations history).getLast? :=
    List.getLast?_drop
  rw [hleft]
  rcases hlive : overwriting history with _ | value
  · simp only [hlive, Option.isSome_none, Bool.false_eq_true, if_false] at hlength
    simp only [and_true]
    exact if_congr (by omega) rfl rfl
  · simp only [hlive, Option.isSome_some, if_true] at hlength
    simp only [reduceCtorEq, and_false, if_false]
    exact if_neg (by omega)

theorem mem_creations_of_overwriting {value : α} (hlive : overwriting history = some value) :
    value ∈ creations history := by
  induction history with
  | nil => cases hlive
  | cons change rest ih =>
      rcases change with ⟨_ | created, _ | _⟩
      · simpa [creations] using ih hlive
      · cases hlive
      · cases hlive
        simp [creations]
      · simp [creations, ih hlive]

/-- The live value is the last creation, unless a creation was taken back since. -/
theorem getLast_creations (hdistinct : (creations history).Nodup) {value : α}
    (hlive : overwriting history = some value) :
    (creations history).getLast? = some value ↔ takenBack history = false := by
  induction history with
  | nil => cases hlive
  | cons change rest ih =>
      rcases change with ⟨_ | created, _ | _⟩
      · simp only [creations, Option.toList_none, List.append_nil] at hdistinct ⊢
        exact ih hdistinct hlive
      · cases hlive
      · cases hlive
        simp [creations, takenBack]
      · have hmem : value ∈ creations rest := mem_creations_of_overwriting hlive
        have hne : created ≠ value := by
          rintro rfl
          simp only [creations, Option.toList_some, List.nodup_append] at hdistinct
          exact hdistinct.2.2 created hmem created (by simp) rfl
        simpa [creations, takenBack] using hne

/-- **When the two readings agree**: no overwrite is left over behind an erased key, and no creation
was taken back in front of a live one. -/
theorem joined_eq_overwriting_iff (hvalid : Valid history) (hdistinct : (creations history).Nodup) :
    joined history = overwriting history ↔
      if (overwriting history).isSome then takenBack history = false
      else overwrites history = 0 := by
  rw [joined_eq hvalid]
  rcases hlive : overwriting history with _ | value
  · simp only [and_true, Option.isSome_none, Bool.false_eq_true, if_false]
    by_cases hnone : overwrites history = 0
    · simp [hnone]
    · rw [if_neg hnone]
      have hlength := length_creations hvalid
      simp only [hnone, iff_false, List.getLast?_eq_none_iff]
      intro hempty
      rw [hempty] at hlength
      simp only [List.length_nil] at hlength
      omega
  · simp only [reduceCtorEq, and_false, if_false, Option.isSome_some, if_true]
    exact getLast_creations hdistinct hlive

end Recreation

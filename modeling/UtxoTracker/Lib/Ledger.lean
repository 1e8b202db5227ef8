import Mathlib.Data.List.Basic
/-!
# Ledgers of coins

A ledger says which coins are unspent. A delta creates coins and spends coins, a coin it creates
included. Applying a delta can be undone from an archive of the coins that it took from the ledger
below it; the coins it created itself need no archive.
-/

namespace Ledger

variable {ι κ : Type*} [DecidableEq ι]

/-- The coins one block creates, and the references it spends. -/
structure Delta (ι κ : Type*) where
  created : ι → Option κ
  spent : List ι

namespace Delta

variable (d : Delta ι κ)

/-- The ledger after `d`: what it spends is gone, whether it was there before or created by `d`. -/
def apply (u : ι → Option κ) : ι → Option κ :=
  fun o => if o ∈ d.spent then none else (d.created o).or (u o)

/-- The coins that `d` took from the ledger `u` below it. -/
def archive (u : ι → Option κ) : ι → Option κ :=
  fun o => if o ∈ d.spent then u o else none

/-- Put the archived coins back, then drop what `d` created. -/
def undo (archived : ι → Option κ) (u : ι → Option κ) : ι → Option κ :=
  fun o => if (d.created o).isSome then none else (archived o).or (u o)

/-- No coin is created over one that the ledger already holds. -/
def Fresh (u : ι → Option κ) : Prop := ∀ o, (d.created o).isSome → u o = none

variable {d} {u : ι → Option κ}

theorem apply_of_mem {o : ι} (hspent : o ∈ d.spent) : d.apply u o = none := if_pos hspent

theorem apply_of_notMem {o : ι} (hspent : o ∉ d.spent) : d.apply u o = (d.created o).or (u o) :=
  if_neg hspent

/-- Undoing with any archive: a spent coin comes back exactly as the archive holds it. -/
theorem undo_apply_eq (hfresh : d.Fresh u) (archived : ι → Option κ)
    (hrange : ∀ o, o ∉ d.spent → archived o = none) :
    d.undo archived (d.apply u) =
      fun o => if o ∈ d.spent ∧ d.created o = none then archived o else u o := by
  funext o
  cases hcreated : d.created o with
  | some coin =>
      have habsent : u o = none := hfresh o (by simp [hcreated])
      simp [undo, hcreated, habsent]
  | none =>
      by_cases hspent : o ∈ d.spent
      · simp [undo, hcreated, apply_of_mem hspent, hspent]
      · simp [undo, hcreated, apply_of_notMem hspent, hspent, hrange o hspent]

/-- **Undo inverts apply** when the archive is complete. -/
theorem undo_archive_apply (hfresh : d.Fresh u) : d.undo (d.archive u) (d.apply u) = u := by
  rw [undo_apply_eq hfresh (d.archive u) (fun o hspent => if_neg hspent)]
  funext o
  by_cases hspent : o ∈ d.spent ∧ d.created o = none
  · rw [if_pos hspent, archive, if_pos hspent.1]
  · rw [if_neg hspent]

end Delta

/-! ### Replaying a chain of deltas, newest first -/

/-- The ledger after a chain of deltas. -/
def replay : List (Delta ι κ) → ι → Option κ
  | [] => fun _ => none
  | d :: rest => d.apply (replay rest)

/-- The newest coin ever created under a reference, spent or not. -/
def everCreated : List (Delta ι κ) → ι → Option κ
  | [] => fun _ => none
  | d :: rest => fun o => (d.created o).or (everCreated rest o)

theorem everCreated_of_replay {chain : List (Delta ι κ)} {o : ι} {coin : κ}
    (hreplay : replay chain o = some coin) : everCreated chain o = some coin := by
  induction chain with
  | nil => cases hreplay
  | cons d rest ih =>
      have hspent : o ∉ d.spent := by
        intro hmem
        rw [replay, Delta.apply_of_mem hmem] at hreplay
        cases hreplay
      rw [replay, Delta.apply_of_notMem hspent] at hreplay
      cases hcreated : d.created o with
      | some created => simpa [everCreated, hcreated] using hreplay
      | none =>
          rw [hcreated, Option.none_or] at hreplay
          simpa [everCreated, hcreated] using ih hreplay

theorem replay_eq_none_of_everCreated {chain : List (Delta ι κ)} {o : ι}
    (hnone : everCreated chain o = none) : replay chain o = none := by
  cases hreplay : replay chain o with
  | none => rfl
  | some coin => rw [everCreated_of_replay hreplay] at hnone; cases hnone

end Ledger

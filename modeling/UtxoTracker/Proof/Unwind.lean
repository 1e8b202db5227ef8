import UtxoTracker.Proof.Index
/-!
# Unwinding the reference

How the reference record changes when the newest block of a chain goes. What the recovery records do
not cover is lost, and a provenance that fits the chain still fits the chain below.
-/

namespace UtxoTracker

open KeyedStore LevelUpStore Provenance

/-- The database holds the reference record at every key but the housekeeping ones. -/
def Indexes (p : Provenance) (chain : Chain) (window : List Hash) (db : Db) : Prop :=
  ∀ k : Key, k.isMeta = false → db[k]? = p.record chain window k

/-- The coin a reader of `o` sees after the rollback: the archived one comes back, a created one
goes. -/
def coinAfterRollback (p : Provenance) (b : Block) (rest : Chain) (o : OutPoint) :
    Option NewOutput :=
  if (b.created rest.length o).isSome then none
  else (p.archived b rest o).or (p.coins (b :: rest) o)

section Unwind

variable {p : Provenance} {b : Block} {rest : Chain}

theorem archived_of_created (hvalid : ValidBlock rest b) {o : OutPoint}
    (hcreated : (b.created rest.length o).isSome) : p.archived b rest o = none := by
  have hnone : p.coins rest o = none := coins_eq_none_of_everCreated (hvalid.fresh hcreated)
  simp [archived, Block.delta, Ledger.Delta.archive, hnone]

theorem mem_unwind_lost {o : OutPoint} :
    o ∈ (p.unwind b rest).lost ↔
      (o ∈ p.lost ∨ rest.length < p.seeded ∧ o ∈ b.spent) ∧ b.created rest.length o = none := by
  by_cases hseeded : rest.length < p.seeded <;> simp [unwind, hseeded]

/-- Where nothing was lost, the rollback is the ledger's undo. -/
theorem coinAfterRollback_eq_undo {o : OutPoint} (hlost : o ∉ p.lost)
    (archived : OutPoint → Option NewOutput) (harchived : p.archived b rest o = archived o) :
    coinAfterRollback p b rest o =
      (b.delta rest.length).undo archived ((b.delta rest.length).apply (utxo rest)) o := by
  have hcoins : p.coins (b :: rest) o = (b.delta rest.length).apply (utxo rest) o := by
    rw [coins, if_neg hlost, utxo_cons]
  rw [coinAfterRollback, harchived, hcoins]
  rfl

/-- **The rollback's coins**: the reference coins of the chain below. -/
theorem coinAfterRollback_eq (hvalid : ValidBlock rest b) (o : OutPoint) :
    coinAfterRollback p b rest o = (p.unwind b rest).coins rest o := by
  by_cases hcreated : (b.created rest.length o).isSome
  · rw [coinAfterRollback, if_pos hcreated, coins_eq_none_of_everCreated (hvalid.fresh hcreated)]
  have hnone : b.created rest.length o = none := by simpa using hcreated
  by_cases hlost : o ∈ p.lost
  · have hafter : o ∈ (p.unwind b rest).lost := mem_unwind_lost.mpr ⟨Or.inl hlost, hnone⟩
    have harchived : p.archived b rest o = none := by
      simp [archived, Block.delta, Ledger.Delta.archive, coins, hlost]
    rw [coinAfterRollback, if_neg hcreated, harchived, coins, if_pos hlost, coins, if_pos hafter,
      Option.none_or]
  by_cases hseeded : rest.length < p.seeded
  · -- A block of a bulk load has no archive.
    have harchived : p.archived b rest o = none := by rw [archived, if_pos hseeded]
    rw [coinAfterRollback_eq_undo hlost (fun _ => none) harchived,
      Ledger.Delta.undo_apply_eq hvalid.delta_fresh _ fun _ _ => rfl, coins]
    refine if_congr ?_ rfl rfl
    rw [mem_unwind_lost]
    simp [Block.delta, hlost, hseeded, hnone]
  · have harchived : p.archived b rest o = (b.delta rest.length).archive (utxo rest) o := by
      simp [archived, hseeded, Ledger.Delta.archive, coins, hlost]
    have hafter : o ∉ (p.unwind b rest).lost := by
      rw [mem_unwind_lost]
      rintro ⟨hor | hor, -⟩
      · exact hlost hor
      · exact hseeded hor.1
    rw [coinAfterRollback_eq_undo hlost _ harchived,
      Ledger.Delta.undo_archive_apply hvalid.delta_fresh, coins, if_neg hafter]

theorem unwind_indexed {height : Nat} (hbelow : height < rest.length) :
    (p.unwind b rest).indexed height = p.indexed height := by
  have hiff : min p.seeded rest.length ≤ height ↔ p.seeded ≤ height := by omega
  simp [indexed, unwind, hiff]

/-- The recovery records of the blocks below stay what they were. -/
theorem unwind_undoRecord (hvalid : ValidBlock rest b) {c : Block} {below : Chain}
    (hsuffix : c :: below <:+ rest) (k : Key) :
    (p.unwind b rest).undoRecord c below k = p.undoRecord c below k := by
  have hlen : below.length < rest.length := hsuffix.length_le
  have harchived : ∀ o, (p.unwind b rest).archived c below o = p.archived c below o := by
    intro o
    have hiff : below.length < min p.seeded rest.length ↔ below.length < p.seeded := by omega
    by_cases hseeded : below.length < p.seeded
    · simp [archived, unwind, hiff, hseeded]
    · have hlive : ¬ rest.length < p.seeded := by omega
      have hcoins : (p.unwind b rest).coins below o = p.coins below o := by
        rw [coins, coins]
        by_cases hcreated : b.created rest.length o = none
        · simp [mem_unwind_lost, hlive, hcreated]
        · have hnone : utxo below o = none :=
            utxo_eq_none_of_everCreated (everCreated_suffix
              ((List.suffix_cons c below).trans hsuffix)
              (hvalid.fresh (Option.isSome_iff_ne_none.mpr hcreated)))
          simp [hnone]
      have hlive' : ¬ below.length < (p.unwind b rest).seeded := by
        simp only [unwind]
        omega
      rw [archived, if_neg hlive', archived, if_neg hseeded]
      simp only [Ledger.Delta.archive, hcoins]
  cases k <;> simp [undoRecord, harchived, unwind_indexed hlen]

theorem unwind_fits {window : List Hash} (hfits : p.Fits (b :: rest) (b.hash :: window))
    (hvalid : ValidBlock rest b) (hnotMem : b.hash ∉ window) :
    (p.unwind b rest).Fits rest window where
  seeded_le := Nat.min_le_right _ _
  lost_created := by
    intro o hlost
    obtain ⟨hor, hcreated⟩ := mem_unwind_lost.mp hlost
    have hbound : ∀ out, everCreated rest o = some out → out.height < rest.length :=
      fun out hout => (everCreated_fields hout).2.2
    have hmin : ∀ h : Int, h < p.seeded → h < rest.length → h < (p.unwind b rest).seeded := by
      intro h hseeded hlen
      simp only [unwind]
      omega
    rcases hor with hlost | ⟨hseeded, hspent⟩
    · obtain ⟨out, hout, hheight⟩ := hfits.lost_created o hlost
      rw [everCreated_cons, hcreated, Option.none_or] at hout
      exact ⟨out, hout, hmin _ hheight (hbound out hout)⟩
    · rcases hvalid.spendable o hspent with hsome | hsome
      · rw [hcreated] at hsome
        cases hsome
      · obtain ⟨out, hout⟩ := Option.isSome_iff_exists.mp hsome
        have hever := everCreated_of_utxo hout
        have := hbound out hever
        exact ⟨out, hever, hmin _ (by omega) this⟩
  window_sub := by
    intro hash hmem
    rcases List.mem_cons.mp (hfits.window_sub hash (List.mem_cons_of_mem _ hmem)) with heq | hin
    · exact absurd (heq ▸ hmem) hnotMem
    · exact hin

end Unwind

end UtxoTracker

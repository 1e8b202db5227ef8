import UtxoTracker.Proof.Outputs
import UtxoTracker.Store.Cleanup
/-!
# What the per-block scans stage

Every step of a rollback or a pruning scans the database and stages a list of writes. Membership in
these lists is read off the database, and the steps compose by appending their lists.
-/

namespace UtxoTracker

open KeyedStore LevelUpStore

/-! ### The staged writes as one list -/

section Scans

variable (db : Db) (blockHash : Hash)

def scriptOps : List (Key × WriteOp Value) :=
  (scan db (blkScriptEntry blockHash)).flatMap fun script =>
    [(.scriptBlk script, .del), (.blkScript blockHash script, .del)]

def createdOps : List (Key × WriteOp Value) :=
  (scan db (outBlkEntry blockHash)).flatMap fun (script, txid, idx) =>
    [(.output script txid idx, .del), (.outHint txid idx, .del), (.outBlk blockHash txid idx, .del)]

variable {db blockHash} {entry : Key × WriteOp Value}

theorem mem_scriptOps : entry ∈ scriptOps db blockHash ↔
    ∃ script, (db[Key.blkScript blockHash script]?).isSome ∧
      (entry = (.scriptBlk script, .del) ∨ entry = (.blkScript blockHash script, .del)) := by
  simp only [scriptOps, List.mem_flatMap, mem_scan]
  constructor
  · rintro ⟨script, ⟨k, v, hget, haccept⟩, hentry⟩
    cases k with
    | blkScript h s =>
        simp only [blkScriptEntry, Option.ite_none_right_eq_some, Option.some.injEq] at haccept
        obtain ⟨rfl, rfl⟩ := haccept
        exact ⟨s, by simp [hget], by simpa using hentry⟩
    | _ => cases haccept
  · rintro ⟨script, hsome, hentry⟩
    obtain ⟨v, hget⟩ := Option.isSome_iff_exists.mp hsome
    exact ⟨script, ⟨_, v, hget, by simp [blkScriptEntry]⟩, by simpa using hentry⟩

theorem mem_createdOps : entry ∈ createdOps db blockHash ↔
    ∃ script txid idx, db[Key.outBlk blockHash txid idx]?.bind decodeHash = some script ∧
      (entry = (.output script txid idx, .del) ∨ entry = (.outHint txid idx, .del) ∨
        entry = (.outBlk blockHash txid idx, .del)) := by
  simp only [createdOps, List.mem_flatMap, mem_scan]
  constructor
  · rintro ⟨⟨script, txid, idx⟩, ⟨k, v, hget, haccept⟩, hentry⟩
    cases k with
    | outBlk h t i =>
        simp only [outBlkEntry, Option.ite_none_right_eq_some, Option.map_eq_some_iff,
          Prod.mk.injEq] at haccept
        obtain ⟨rfl, script', hdecode, rfl, rfl, rfl⟩ := haccept
        exact ⟨script', t, i, by simp [hget, hdecode], by simpa using hentry⟩
    | _ => cases haccept
  · rintro ⟨script, txid, idx, hdecode, hentry⟩
    obtain ⟨v, hget, hv⟩ := Option.bind_eq_some_iff.mp hdecode
    exact ⟨(script, txid, idx), ⟨_, v, hget, by simp [outBlkEntry, hv]⟩, by simpa using hentry⟩

theorem mem_outDelOps {recover : Bool} :
    entry ∈ (scan db (outDelOps blockHash recover)).flatten ↔
      ∃ script txid idx value, db[Key.outDel blockHash script txid idx]? = some value ∧
        ((recover = true ∧ entry = (.output script txid idx, .put value)) ∨
          entry = (.outDel blockHash script txid idx, .del)) := by
  simp only [List.mem_flatten, mem_scan]
  constructor
  · rintro ⟨ops, ⟨k, v, hget, haccept⟩, hentry⟩
    cases k with
    | outDel h s t i =>
        simp only [outDelOps, Option.ite_none_right_eq_some, Option.some.injEq] at haccept
        obtain ⟨rfl, rfl⟩ := haccept
        refine ⟨s, t, i, v, hget, ?_⟩
        cases recover <;> simpa using hentry
    | _ => cases haccept
  · rintro ⟨script, txid, idx, value, hget, hentry⟩
    refine ⟨_, ⟨_, value, hget, if_pos rfl⟩, ?_⟩
    cases recover <;> simpa using hentry

theorem mem_hintDelOps {recover : Bool} :
    entry ∈ (scan db (hintDelOps blockHash recover)).flatten ↔
      ∃ txid idx value, db[Key.hintDel blockHash txid idx]? = some value ∧
        ((recover = true ∧ entry = (.outHint txid idx, .put value)) ∨
          entry = (.hintDel blockHash txid idx, .del)) := by
  simp only [List.mem_flatten, mem_scan]
  constructor
  · rintro ⟨ops, ⟨k, v, hget, haccept⟩, hentry⟩
    cases k with
    | hintDel h t i =>
        simp only [hintDelOps, Option.ite_none_right_eq_some, Option.some.injEq] at haccept
        obtain ⟨rfl, rfl⟩ := haccept
        refine ⟨t, i, v, hget, ?_⟩
        cases recover <;> simpa using hentry
    | _ => cases haccept
  · rintro ⟨txid, idx, value, hget, hentry⟩
    refine ⟨_, ⟨_, value, hget, if_pos rfl⟩, ?_⟩
    cases recover <;> simpa using hentry

theorem mem_outBlkTxids {σ : LevelUpStore} {txid : Hash} :
    txid ∈ σ.outBlkTxids blockHash ↔ ∃ idx, (σ.db[Key.outBlk blockHash txid idx]?).isSome := by
  simp only [outBlkTxids, List.mem_eraseDups, mem_scan]
  constructor
  · rintro ⟨k, v, hget, haccept⟩
    cases k with
    | outBlk h t i =>
        simp only [outBlkTxid, Option.ite_none_right_eq_some, Option.some.injEq] at haccept
        obtain ⟨rfl, rfl⟩ := haccept
        exact ⟨i, by simp [hget]⟩
    | _ => cases haccept
  · rintro ⟨idx, hsome⟩
    obtain ⟨v, hget⟩ := Option.isSome_iff_exists.mp hsome
    exact ⟨_, v, hget, by simp [outBlkTxid]⟩

theorem mem_deleteTxBlockRecordOps_key {σ : LevelUpStore} {txid : Hash} {k : Key}
    {op : WriteOp Value} (hmem : (k, op) ∈ σ.deleteTxBlockRecordOps blockHash txid) :
    k = .tx txid ∨ k = .txExact txid ∨ k = .txBlockRecovery blockHash txid := by
  unfold deleteTxBlockRecordOps deleteTransactionOps at hmem
  split at hmem
  · simp at hmem
    tauto
  · simp only [List.mem_append, List.mem_ite_nil_right, List.mem_singleton, Prod.mk.injEq] at hmem
    tauto

end Scans

/-! ### Steps that stage a list -/

/-- `σ'` is `σ` with `ops` staged, the known scripts aside. -/
def Wrote (σ σ' : LevelUpStore) (ops : List (Key × WriteOp Value)) : Prop :=
  σ' = { σ.addTransactions ops with knownScripts := σ'.knownScripts }

section Wrote

variable {σ σ' σ'' : LevelUpStore} {ops ops' : List (Key × WriteOp Value)} {blockHash : Hash}

theorem addTransactions_withKnown (known : Finset Hash) :
    { σ with knownScripts := known }.addTransactions ops =
      { σ.addTransactions ops with knownScripts := known } := by
  induction ops generalizing σ with
  | nil => rfl
  | cons entry rest ih =>
      have hstep : { σ with knownScripts := known }.addTransaction entry.1 entry.2 =
          { σ.addTransaction entry.1 entry.2 with knownScripts := known } := by
        unfold addTransaction
        cases σ.transactionArray <;> rfl
      simp only [addTransactions, List.foldl_cons] at ih ⊢
      rw [hstep, ih]

theorem Wrote.addTransactions (ops : List (Key × WriteOp Value)) :
    Wrote σ (σ.addTransactions ops) ops := rfl

theorem Wrote.trans (hfirst : Wrote σ σ' ops) (hsecond : Wrote σ' σ'' ops') :
    Wrote σ σ'' (ops ++ ops') := by
  unfold Wrote at *
  rw [hfirst, addTransactions_withKnown] at hsecond
  rw [hsecond, addTransactions_append]

theorem Wrote.isOpen (hwrote : Wrote σ σ' ops) (hopen : σ.Open) : σ'.Open := by
  rw [hwrote]
  exact hopen.addTransactions ops

theorem Wrote.db (hwrote : Wrote σ σ' ops) (hopen : σ.Open) : σ'.db = σ.db := by
  rw [hwrote]
  exact hopen.addTransactions_db ops

theorem Wrote.staged (hwrote : Wrote σ σ' ops) (k : Key) :
    σ'.staged k = (σ.addTransactions ops).staged k := by
  rw [hwrote]
  rfl

theorem Wrote.outputCache (hwrote : Wrote σ σ' ops) : σ'.outputCache = σ.outputCache := by
  rw [hwrote]
  exact addTransactions_outputCache ops

theorem Wrote.deletedTransactionArray (hwrote : Wrote σ σ' ops) :
    σ'.deletedTransactionArray = σ.deletedTransactionArray := by
  rw [hwrote]
  exact addTransactions_deletedTransactionArray ops

theorem wrote_removeOutputScriptsInBlock (σ : LevelUpStore) (blockHash : Hash) :
    Wrote σ (σ.removeOutputScriptsInBlock blockHash) (scriptOps σ.db blockHash) := by
  unfold removeOutputScriptsInBlock Wrote
  dsimp only
  split <;> rfl

/-- With no in-batch deletion on record for the block, only the recovery records are replayed. -/
theorem wrote_processDeletedOutputs (hopen : σ.Open) (blockHash : Hash) (recover : Bool)
    (hnone : (σ.deletedTransactionArray.bind fun deleted => deleted[blockHash]?) = none) :
    Wrote σ (σ.processDeletedOutputs blockHash recover)
      ((scan σ.db (outDelOps blockHash recover)).flatten ++
        (scan σ.db (hintDelOps blockHash recover)).flatten) := by
  obtain ⟨deleted, hdeleted⟩ := Option.isSome_iff_exists.mp hopen.2
  have habsent : deleted[blockHash]? = none := by simpa [hdeleted] using hnone
  have hfirst : Wrote σ (σ.processDeletedOutputsInDb blockHash recover false)
      (scan σ.db (outDelOps blockHash recover)).flatten := Wrote.addTransactions _
  simp only [processDeletedOutputs, hdeleted, habsent]
  refine hfirst.trans ?_
  rw [← hfirst.db hopen]
  exact Wrote.addTransactions _

theorem wrote_removeCreatedOutputsInBlock (σ : LevelUpStore) (blockHash : Hash) :
    Wrote σ (σ.removeCreatedOutputsInBlock blockHash) (createdOps σ.db blockHash) :=
  Wrote.addTransactions _

/-- Which writes `deleteTransactionsInBlock` stages depends on the database alone. -/
theorem deleteTransactionsOps_congr (hdb : σ'.db = σ.db) :
    (σ'.outBlkTxids blockHash).flatMap (σ'.deleteTxBlockRecordOps blockHash) =
      (σ.outBlkTxids blockHash).flatMap (σ.deleteTxBlockRecordOps blockHash) := by
  unfold outBlkTxids deleteTxBlockRecordOps
  rw [hdb]

theorem wrote_deleteBlock (σ : LevelUpStore) (blockHash : Hash) :
    Wrote σ (σ.deleteBlock blockHash)
      ((σ.outBlkTxids blockHash).flatMap (σ.deleteTxBlockRecordOps blockHash) ++
        [(.block blockHash, .del)]) :=
  (Wrote.addTransactions _).trans (Wrote.addTransactions [(.block blockHash, .del)])

@[simp]
theorem processDeletedOutputs_knownScripts (recover : Bool) :
    (σ.processDeletedOutputs blockHash recover).knownScripts = σ.knownScripts := by
  unfold processDeletedOutputs processDeletedOutputsInDb replayDeleted
  simp only [addTransactions_knownScripts]
  split
  · rfl
  · split <;> simp only
    split <;> simp

@[simp]
theorem removeLastStoredBlock_knownScripts :
    (σ.removeLastStoredBlock blockHash).knownScripts = σ.knownScripts := by
  unfold removeLastStoredBlock
  split
  · next σ' hremoved =>
      unfold removeTransactionIfExists at hremoved
      split at hremoved
      · cases hremoved
      · split at hremoved <;> cases hremoved
        rfl
  · simp

/-- With no put to cancel, the delete is staged. -/
theorem wrote_removeLastStoredBlock (blockHash : Hash)
    (habsent : ∀ value, σ.staged (.storedBlk blockHash) ≠ some (.put value)) :
    Wrote σ (σ.removeLastStoredBlock blockHash) [(.storedBlk blockHash, .del)] := by
  have hnone : σ.removeTransactionIfExists (.storedBlk blockHash) = none := by
    unfold removeTransactionIfExists
    cases hstaged : σ.transactionArray with
    | none => rfl
    | some staged =>
        simp only [LevelUpStore.staged, hstaged, Option.getD_some] at habsent
        dsimp only
        split
        · next value hput => exact absurd hput (habsent value)
        · rfl
  rw [removeLastStoredBlock, hnone]
  exact Wrote.addTransactions [(.storedBlk blockHash, .del)]

end Wrote

end UtxoTracker

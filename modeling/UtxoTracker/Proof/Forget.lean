import UtxoTracker.Concurrency.Caches
/-!
# Operations that do not read the caches

Outside the lookups of a block nothing reads a cache, so an operation on the store with both caches
empty does what it does on the store itself.
-/

namespace UtxoTracker

open KeyedStore

theorem exists_ok_of_map_eq {ε α β : Type} {x : Except ε α} {f : α → β} {result : β}
    (hmap : x.map f = .ok result) : ∃ value, x = .ok value ∧ f value = result := by
  cases x with
  | error error => cases hmap
  | ok value => exact ⟨value, rfl, Except.ok.inj hmap⟩

namespace LevelUpStore

variable {σ : LevelUpStore}

theorem withCaches_self : σ.withCaches σ = σ := rfl

@[simp]
theorem forget_forget : σ.forget.forget = σ.forget := rfl

@[simp]
theorem forget_db : σ.forget.db = σ.db := rfl

/-! ### Staging -/

theorem withCaches_addTransaction (m : LevelUpStore) (key : Key) (op : WriteOp Value) :
    (σ.withCaches m).addTransaction key op = (σ.addTransaction key op).withCaches m := by
  simp only [addTransaction, withCaches]
  cases σ.transactionArray <;> rfl

theorem withCaches_removeTransaction (m : LevelUpStore) (key : Key) (deletedKey : Hash) :
    (σ.withCaches m).removeTransaction key deletedKey =
      (σ.removeTransaction key deletedKey).map (·.withCaches m) := by
  simp only [removeTransaction, withCaches]
  cases σ.transactionArray with
  | none => rfl
  | some staged =>
      cases σ.deletedTransactionArray with
      | none => rfl
      | some deleted =>
          cases hop : staged[key]? with
          | none => simp only [hop, Option.map_none]
          | some op => simp only [hop, Option.map_some]

@[simp]
theorem forget_addTransaction (key : Key) (op : WriteOp Value) :
    σ.forget.addTransaction key op = (σ.addTransaction key op).forget :=
  withCaches_addTransaction (createDatabase ∅) key op

@[simp]
theorem forget_addTransactions (ops : List (Key × WriteOp Value)) :
    σ.forget.addTransactions ops = (σ.addTransactions ops).forget := by
  induction ops generalizing σ with
  | nil => rfl
  | cons entry rest ih =>
      have hstep : σ.forget.addTransactions (entry :: rest) =
          (σ.forget.addTransaction entry.1 entry.2).addTransactions rest := rfl
      rw [hstep, forget_addTransaction, ih]
      rfl

@[simp]
theorem forget_beginTransaction : σ.forget.beginTransaction = σ.beginTransaction.forget := rfl

@[simp]
theorem forget_discardTransaction : σ.forget.discardTransaction = σ.discardTransaction.forget := rfl

theorem forget_endTransaction (batch : Bool) :
    σ.forget.endTransaction batch = (σ.endTransaction batch).map forget := by
  cases batch with
  | false => rfl
  | true =>
      simp only [endTransaction, forget, if_true]
      cases σ.transactionArray <;> rfl

@[simp]
theorem forget_removeLastStoredBlock (blockHash : Hash) :
    σ.forget.removeLastStoredBlock blockHash = (σ.removeLastStoredBlock blockHash).forget := by
  have hcancel : σ.forget.removeTransactionIfExists (.storedBlk blockHash) =
      (σ.removeTransactionIfExists (.storedBlk blockHash)).map forget := by
    simp only [removeTransactionIfExists, forget]
    cases σ.transactionArray with
    | none => rfl
    | some staged =>
        cases hop : staged[Key.storedBlk blockHash]? with
        | none => simp only [hop, Option.map_none]
        | some op =>
            simp only [hop]
            cases op <;> rfl
  unfold removeLastStoredBlock
  rw [hcancel]
  cases σ.removeTransactionIfExists (.storedBlk blockHash) with
  | none => exact forget_addTransaction _ _
  | some σ' => rfl

/-! ### Removing a block's records -/

@[simp]
theorem forget_processDeletedOutputsInDb (blockHash : Hash) (recover hints : Bool) :
    σ.forget.processDeletedOutputsInDb blockHash recover hints =
      (σ.processDeletedOutputsInDb blockHash recover hints).forget := forget_addTransactions _

@[simp]
theorem forget_processDeletedOutputs (blockHash : Hash) (recover : Bool) :
    σ.forget.processDeletedOutputs blockHash recover =
      (σ.processDeletedOutputs blockHash recover).forget := by
  have hforget : σ.forget.deletedTransactionArray = σ.deletedTransactionArray := rfl
  unfold processDeletedOutputs
  rw [hforget]
  cases σ.deletedTransactionArray with
  | none => simp only [forget_processDeletedOutputsInDb]
  | some deleted =>
      cases hinner : deleted[blockHash]? with
      | none => simp only [hinner, forget_processDeletedOutputsInDb]
      | some inner =>
          have hreplay : (if recover = true then σ.forget.replayDeleted inner else σ.forget) =
              (if recover = true then σ.replayDeleted inner else σ).forget := by
            split
            · exact forget_addTransactions _
            · rfl
          simp only [hinner, hreplay]
          rw [show ({ (if recover = true then σ.replayDeleted inner else σ).forget with
              deletedTransactionArray := some (deleted.erase blockHash) } : LevelUpStore) =
            ({ (if recover = true then σ.replayDeleted inner else σ) with
              deletedTransactionArray := some (deleted.erase blockHash) } : LevelUpStore).forget
            from rfl, forget_processDeletedOutputsInDb, forget_processDeletedOutputsInDb]

@[simp]
theorem forget_removeCreatedOutputsInBlock (blockHash : Hash) :
    σ.forget.removeCreatedOutputsInBlock blockHash =
      (σ.removeCreatedOutputsInBlock blockHash).forget := forget_addTransactions _

@[simp]
theorem forget_removeOutputScriptsInBlock (blockHash : Hash) :
    σ.forget.removeOutputScriptsInBlock blockHash =
      (σ.removeOutputScriptsInBlock blockHash).forget := by
  simp only [removeOutputScriptsInBlock, forget_db, forget_addTransactions]
  split <;> rfl

@[simp]
theorem forget_deleteBlock (blockHash : Hash) :
    σ.forget.deleteBlock blockHash = (σ.deleteBlock blockHash).forget := by
  have htransactions : σ.forget.deleteTransactionsInBlock blockHash =
      (σ.deleteTransactionsInBlock blockHash).forget := forget_addTransactions _
  rw [deleteBlock, htransactions, forget_addTransaction, deleteBlock]

@[simp]
theorem forget_removeIndexOnly (blockHash : Hash) (index : BlockIndex) :
    σ.forget.removeIndexOnly blockHash index = (σ.removeIndexOnly blockHash index).forget :=
  forget_addTransactions _

end LevelUpStore

/-! ### The tracker's operations -/

namespace Tracker

open LevelUpStore

variable {t : Tracker}

@[simp]
theorem forget_forget : t.forget.forget = t.forget := rfl

@[simp]
theorem forget_db : t.forget.db = t.db.forget := rfl

theorem forget_recordUndoWindowWatermark :
    t.forget.recordUndoWindowWatermark = t.recordUndoWindowWatermark.forget := by
  have hpersisted : t.forget.undoWindowWatermarkPersisted = t.undoWindowWatermarkPersisted := rfl
  have hmark : t.forget.undoWindowWatermark = t.undoWindowWatermark := rfl
  have hlast : t.forget.lastBlocks = t.lastBlocks := rfl
  have hundo : t.forget.undoBlocks = t.undoBlocks := rfl
  simp only [recordUndoWindowWatermark, hpersisted, hmark, hlast, hundo]
  split
  · rfl
  · simp only [forget_db, forget_addTransaction]
    rfl

theorem forget_addToLastBlocks (blockHash : Hash) :
    t.forget.addToLastBlocks blockHash = (t.addToLastBlocks blockHash).forget := by
  have hadd : t.forget.db.addLastStoredBlock blockHash = (t.db.addLastStoredBlock blockHash).forget :=
    forget_addTransaction _ _
  unfold addToLastBlocks
  rw [← forget_recordUndoWindowWatermark, hadd]
  rfl

theorem forget_pruneAgedBlockRecords (σ : LevelUpStore) (blockHash : Hash) :
    pruneAgedBlockRecords σ.forget blockHash = (pruneAgedBlockRecords σ blockHash).forget := by
  simp only [pruneAgedBlockRecords, removeCreatedOutputsBlockIndexOnly,
    removeOutputScriptsBlockIndexOnly, removeTxBlockRecoveryIndexOnly, forget_processDeletedOutputs,
    forget_removeLastStoredBlock, forget_removeIndexOnly]

theorem forget_foldl_prune (hashes : List Hash) (σ : LevelUpStore) :
    hashes.foldl pruneAgedBlockRecords σ.forget =
      (hashes.foldl pruneAgedBlockRecords σ).forget := by
  induction hashes generalizing σ with
  | nil => rfl
  | cons hash rest ih => rw [List.foldl_cons, forget_pruneAgedBlockRecords, ih, List.foldl_cons]

theorem forget_cleanupAgedBlocks :
    t.forget.cleanupAgedBlocks = t.cleanupAgedBlocks.map Tracker.forget := by
  unfold cleanupAgedBlocks
  by_cases hpending : t.pendingKMCleanup = []
  · rw [if_pos hpending, if_pos (show t.forget.pendingKMCleanup = [] from hpending)]
    rfl
  · rw [if_neg hpending, if_neg (show ¬ t.forget.pendingKMCleanup = [] from hpending)]
    have hclean : t.forget.toClean = t.toClean := rfl
    simp only [hclean, forget_db, forget_beginTransaction, forget_foldl_prune,
      forget_addTransaction, forget_endTransaction]
    cases LevelUpStore.endTransaction _ true <;> rfl

theorem forget_commitBatch (blockHash : Hash) (height : Int) :
    t.forget.commitBatch blockHash height = (t.commitBatch blockHash height).map Tracker.forget := by
  unfold commitBatch
  have htip : (t.forget.db.setLastBlockHeight height).setLastBlockHash blockHash =
      ((t.db.setLastBlockHeight height).setLastBlockHash blockHash).forget := by
    simp only [setLastBlockHeight, setLastBlockHash, forget_db, forget_addTransaction]
  have hpending : t.forget.pendingKMCleanup = t.pendingKMCleanup := rfl
  simp only [htip, hpending]
  split
  · simp only [forget_endTransaction]
    cases LevelUpStore.endTransaction _ true <;> rfl
  · simp only [forget_addTransaction, forget_endTransaction]
    cases LevelUpStore.endTransaction _ true <;> rfl

theorem forget_discardBatch : t.forget.discardBatch = t.discardBatch.forget := by
  have hpending : t.forget.pendingKMCleanup = t.pendingKMCleanup := rfl
  simp only [discardBatch, hpending]
  split <;> rfl

theorem forget_discardInflightBatchForReorg :
    t.forget.discardInflightBatchForReorg = t.discardInflightBatchForReorg.forget := by
  have hquantity : t.forget.blocksQuantity = t.blocksQuantity := rfl
  simp only [discardInflightBatchForReorg, hquantity]
  split
  · rfl
  · exact forget_discardBatch

theorem forget_reloadCursor : t.forget.reloadCursor = t.reloadCursor.forget := rfl

theorem forget_commitLastBlockPointerRepair (hash : Hash) (height : Int) :
    t.forget.commitLastBlockPointerRepair hash height =
      (t.commitLastBlockPointerRepair hash height).map Tracker.forget := by
  unfold commitLastBlockPointerRepair
  simp only [setLastBlockHeight, setLastBlockHash, forget_db, forget_beginTransaction,
    forget_addTransaction, forget_endTransaction]
  cases LevelUpStore.endTransaction _ true <;> rfl

/-! ### The walk -/

theorem forget_removeFromLastBlocks (blockHash : Hash) :
    t.forget.removeFromLastBlocks blockHash =
      ((t.removeFromLastBlocks blockHash).1.forget, (t.removeFromLastBlocks blockHash).2) := by
  have hlast : t.forget.lastBlocks = t.lastBlocks := rfl
  have hload : loadLastBlocksSortedByHeight t.forget.db = loadLastBlocksSortedByHeight t.db := rfl
  simp only [removeFromLastBlocks, hlast, hload]
  split
  · rfl
  by_cases hmem : blockHash ∈ t.lastBlocks
  · simp only [if_pos hmem, hlast]
    split
    · rfl
    split
    · simp only [forget_db, forget_removeLastStoredBlock]
      rfl
    · rfl
  · simp only [if_neg hmem]
    split
    · rfl
    split
    · simp only [forget_db, forget_removeLastStoredBlock]
      rfl
    · rfl

theorem forget_stageRollback (lastBlockHash : Hash) (lastBlock : BlockRecord) :
    t.forget.stageRollback lastBlockHash lastBlock =
      ((t.stageRollback lastBlockHash lastBlock).1.forget,
        (t.stageRollback lastBlockHash lastBlock).2) := by
  unfold stageRollback
  simp only [forget_db, forget_beginTransaction, forget_removeOutputScriptsInBlock,
    forget_processDeletedOutputs, forget_removeCreatedOutputsInBlock, forget_deleteBlock]
  generalize ((((t.db.beginTransaction).removeOutputScriptsInBlock lastBlockHash).processDeletedOutputs
    lastBlockHash true).removeCreatedOutputsInBlock lastBlockHash).deleteBlock lastBlockHash = σ
  have hwindow := forget_removeFromLastBlocks (t := { t with db := σ }) lastBlockHash
  rw [show ({ t.forget with db := σ.forget } : Tracker) = ({ t with db := σ } : Tracker).forget
    from rfl, hwindow]
  generalize ({ t with db := σ } : Tracker).removeFromLastBlocks lastBlockHash = result
  obtain ⟨t', error | _⟩ := result
  · rfl
  · simp only [setLastBlockHash, setLastBlockHeight, forget_db, forget_addTransaction]
    rfl

theorem forget_rollBackTipBlock (lastBlockHash : Hash) (lastBlock : BlockRecord) (retryCount : Nat)
    (commits : Bool) :
    t.forget.rollBackTipBlock lastBlockHash lastBlock retryCount commits =
      ((t.rollBackTipBlock lastBlockHash lastBlock retryCount commits).1.forget,
        (t.rollBackTipBlock lastBlockHash lastBlock retryCount commits).2) := by
  unfold rollBackTipBlock
  rw [forget_stageRollback]
  generalize t.stageRollback lastBlockHash lastBlock = result
  obtain ⟨t', staged⟩ := result
  have hload : loadLastBlocksSortedByHeight t'.forget.db.discardTransaction =
      loadLastBlocksSortedByHeight t'.db.discardTransaction := rfl
  cases staged with
  | error error =>
      cases error with
      | unrecoverable message => rfl
      | tipBelowCommittedTip message =>
          simp only [hload]
          split <;> rfl
      | other message =>
          simp only [hload]
          split <;> rfl
  | ok _ =>
      cases commits with
      | false =>
          simp only [Bool.false_eq_true, if_false, hload]
          split <;> rfl
      | true =>
          simp only [if_true, forget_db, forget_endTransaction]
          cases t'.db.endTransaction true with
          | ok store => rfl
          | error message =>
              simp only [Except.map]
              split <;> rfl

/-- The outcome of a round with both caches empty. -/
def WalkResult.forget : WalkResult → WalkResult
  | .next t w => .next t.forget w
  | .returned t w => .returned t.forget w
  | .threw t w error => .threw t.forget w error

theorem forget_rollBackRound (w : Walk) (answers : NodeAnswers) (lastBlockIndex : Int)
    (lastBlockHash : Hash) (lastBlock : BlockRecord) :
    t.forget.rollBackRound w answers lastBlockIndex lastBlockHash lastBlock =
      (t.rollBackRound w answers lastBlockIndex lastBlockHash lastBlock).forget := by
  have hrefuse : t.forget.refuseRollbackPastWindow w lastBlockIndex =
      t.refuseRollbackPastWindow w lastBlockIndex := rfl
  unfold rollBackRound
  rw [hrefuse, forget_rollBackTipBlock]
  cases t.refuseRollbackPastWindow w lastBlockIndex with
  | error error => rfl
  | ok _ =>
      generalize t.rollBackTipBlock lastBlockHash lastBlock w.retryCount answers.commits = result
      obtain ⟨t', error | rolledBack⟩ := result
      · rfl
      · cases rolledBack <;> rfl

theorem forget_repairLastBlockPointerFromScan (lastBlockIndex : Int)
    (lastBlock : Option BlockRecord) (commits : Bool) :
    t.forget.repairLastBlockPointerFromScan lastBlockIndex lastBlock commits =
      (t.repairLastBlockPointerFromScan lastBlockIndex lastBlock commits).map Tracker.forget := by
  have hscan : t.forget.db.getLastBlock = t.db.getLastBlock := rfl
  unfold repairLastBlockPointerFromScan
  rw [hscan]
  cases t.db.getLastBlock with
  | none => rfl
  | some found =>
      obtain ⟨hash, record⟩ := found
      simp only [forget_commitLastBlockPointerRepair]
      split
      · rfl
      split
      · cases t.commitLastBlockPointerRepair hash record.h <;> rfl
      · rfl

theorem forget_verifyReorgRound (w : Walk) (answers : NodeAnswers) :
    t.forget.verifyReorgRound w answers = (t.verifyReorgRound w answers).forget := by
  have hheight : t.forget.db.getLastBlockHeight = t.db.getLastBlockHeight := rfl
  have hhash : t.forget.db.getLastBlockHash = t.db.getLastBlockHash := rfl
  have hblock : ∀ hash, t.forget.db.getBlock hash = t.db.getBlock hash := fun _ => rfl
  unfold verifyReorgRound
  simp only [hheight, hhash]
  cases t.db.getLastBlockHash with
  | none => rfl
  | some lastBlockHash =>
      simp only [hblock]
      cases (t.db.getBlock lastBlockHash).filter fun block => block.h = t.db.getLastBlockHeight with
      | none =>
          simp only [forget_repairLastBlockPointerFromScan]
          cases t.repairLastBlockPointerFromScan t.db.getLastBlockHeight
            (t.db.getBlock lastBlockHash) answers.commits <;> rfl
      | some block =>
          have hrefuse : ∀ above height, t.forget.refuseAboveTipWalkPastBudget w above height =
              t.refuseAboveTipWalkPastBudget w above height := fun _ _ => rfl
          have hrecord : t.forget.recordReorg w = (t.recordReorg w).forget := by
            unfold recordReorg
            split <;> rfl
          simp only [hrefuse, hrecord]
          split
          · rfl
          cases htip : w.tip with
          | none =>
              simp only [Bool.false_eq_true, if_false]
              split
              · rfl
              split
              · exact forget_rollBackRound w answers _ _ _
              · rfl
          | some tip =>
              simp only
              by_cases habove : tip < t.db.getLastBlockHeight
              · rw [if_pos (decide_eq_true habove), if_pos (decide_eq_true habove)]
                exact forget_rollBackRound w answers _ _ _
              · simp only [habove, decide_false, Bool.false_eq_true, if_false]
                split
                · rfl
                split
                · exact forget_rollBackRound w answers _ _ _
                · rfl

end Tracker

end UtxoTracker

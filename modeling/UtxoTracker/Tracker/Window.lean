import UtxoTracker.Store.Cleanup
import UtxoTracker.Tracker.State
/-!
# The undo window

The window holds the last `undoBlocks` blocks, in memory and as `N` records. A block that leaves it
is queued, and its records go in a commit of their own after the batch is durable.
-/

namespace UtxoTracker

open KeyedStore

namespace Tracker

variable (t : Tracker)

/-! ### Entering and leaving the window -/

/-- The blocks that leave a window of `lastBlocks` holding at most `undoBlocks`. -/
def agedOut (lastBlocks : List Hash) (undoBlocks : Nat) : List Hash :=
  lastBlocks.take (lastBlocks.length - undoBlocks)

/-- Forget the in-batch deletions of the blocks that left the window. -/
def dropDeleted (db : LevelUpStore) (blocks : List Hash) : LevelUpStore :=
  { db with
    deletedTransactionArray := db.deletedTransactionArray.map fun deleted =>
      blocks.foldl (fun m hash => m.erase hash) deleted }

/-- Stage the window's depth when it differs from the depth on disk. -/
def recordUndoWindowWatermark : Tracker :=
  let depth := min t.lastBlocks.length t.undoBlocks
  let mark := max t.undoWindowWatermark depth
  if t.undoWindowWatermarkPersisted = some mark then { t with undoWindowWatermark := mark }
  else
    { t with
      undoWindowWatermark := mark
      undoWindowWatermarkPersisted := some mark
      db := t.db.addTransaction .undoWatermark (.put (.decimalText mark)) }

def addToLastBlocks (blockHash : Hash) : Tracker :=
  let window := t.lastBlocks ++ [blockHash]
  let aged := agedOut window t.undoBlocks
  { t with
    db := dropDeleted (t.db.addLastStoredBlock blockHash) aged
    lastBlocks := window.drop (window.length - t.undoBlocks)
    pendingKMCleanup := t.pendingKMCleanup ++ aged }.recordUndoWindowWatermark

/-! ### Cleaning up aged-out blocks -/

/-- `pruneAgedBlockRecords`: drop one block's recovery records into the open batch. -/
def pruneAgedBlockRecords (db : LevelUpStore) (blockHash : Hash) : LevelUpStore :=
  ((((db.processDeletedOutputs blockHash false).removeLastStoredBlock
    blockHash).removeCreatedOutputsBlockIndexOnly blockHash).removeOutputScriptsBlockIndexOnly
    blockHash).removeTxBlockRecoveryIndexOnly blockHash

/-- The queued blocks that have really left the window, each once. -/
def toClean : List Hash :=
  (t.pendingKMCleanup.filter fun hash => hash ∉ t.lastBlocks).eraseDups

/-- The pruning goes in one batch with the deletion of the `P` key. -/
def cleanupAgedBlocks : Except String Tracker :=
  if t.pendingKMCleanup = [] then .ok t
  else do
    let store := t.toClean.foldl pruneAgedBlockRecords t.db.beginTransaction
    let store := store.addTransaction .pendingCleanup .del
    let store ← store.endTransaction true
    .ok { t with db := store, pendingKMCleanup := [] }

/-! ### Discarding the open batch -/

/-- Drop the open batch, put the pending list aside outside any batch, and reload the window: the
body of `discardInflightBatchForReorg`, and the prelude of the two hash-mismatch paths. -/
def discardBatch : Tracker :=
  let store := t.db.discardTransaction
  let store :=
    if t.pendingKMCleanup = [] then store
    else { store with db := store.db.insert .pendingCleanup (.hashList t.pendingKMCleanup) }
  { t with db := store, lastBlocks := loadLastBlocksSortedByHeight store }

def discardInflightBatchForReorg : Tracker :=
  if t.blocksQuantity = 0 then t else t.discardBatch

/-- The cursor re-read from the store, and the batch counters zeroed. -/
def reloadCursor : Tracker :=
  { t with
    lastProcessedBlockIndex := t.db.getLastBlockHeight
    lastProcessedBlockHash := t.db.getLastBlockHash
    blocksQuantity := 0 }

/-! ### Leaving the window on a rollback -/

/-- What a failed step throws, and whether it is tagged unrecoverable or as a tip below ours. -/
inductive ReorgError where
  | unrecoverable (message : String)
  | tipBelowCommittedTip (message : String)
  | other (message : String)
  deriving DecidableEq, Repr

/-- `REBUILD_REMEDY` -/
def rebuildRemedy : String :=
  "This index cannot be walked back onto the node's chain and has to be rebuilt. Under "
    ++ "xchain-node run `xchain-node reset xchain-utxo-tracker <coin> <network>`, which drops the "
    ++ "volume and takes the bulk-sync path; standalone, stop the tracker, empty its data "
    ++ "directory and restart it. Restoring the same bootstrap again lands back here if its tip "
    ++ "is the drifted one."

/-- Pop the tip off the window, in memory and in the open batch. A block the window does not hold is
looked for once more on disk. -/
def removeFromLastBlocks (blockHash : Hash) : Tracker × Except ReorgError Unit :=
  if t.lastBlocks = [] then
    (t, .error (.unrecoverable
      ("Can't delete a block from 'last blocks': list is empty (reorg exceeds tracked window). "
        ++ rebuildRemedy)))
  else
    let t :=
      if blockHash ∈ t.lastBlocks then t
      else { t with lastBlocks := loadLastBlocksSortedByHeight t.db }
    if blockHash ∉ t.lastBlocks then
      (t, .error (.unrecoverable
        ("Can't roll back block " ++ blockHash.text ++ ": it is not in the undo window, so its "
          ++ "spent-output recovery records are gone. " ++ rebuildRemedy)))
    else if t.lastBlocks.idxOf blockHash + 1 = t.lastBlocks.length then
      ({ t with
        lastBlocks := t.lastBlocks.dropLast
        db := t.db.removeLastStoredBlock blockHash }, .ok ())
    else
      (t, .error (.other
        "Can't delete a block from the 'last blocks' if it's not the last one"))

end Tracker

end UtxoTracker

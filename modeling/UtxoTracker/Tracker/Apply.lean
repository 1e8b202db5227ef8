import UtxoTracker.Store.Outputs
import UtxoTracker.Tracker.Window
/-!
# Indexing a block

A block is staged in two passes: every output of every transaction, then every spent input in one
batch. A flush commits the batch together with the tip and the list of aged-out blocks.
-/

namespace UtxoTracker

open KeyedStore

namespace LevelUpStore

/-- The body of `parseTxOutputs`' loop for one output. -/
def parseTxOutput (σ : LevelUpStore) (output : NewOutput) (blockHash : Hash) : LevelUpStore :=
  (((σ.insertOutput output).insertOutputHint output).insertOutputScriptBlock output.scriptPubKey
    (some blockHash) output.height).insertOutputBlock output (some blockHash)

/-- The outputs of a transaction as the store's writers take them, in vout order. -/
def newOutputs (tx : Tx) (height : Int) : List NewOutput :=
  tx.outs.mapIdx fun index output =>
    { scriptPubKey := output.scriptHash
      txHash := tx.id
      outputIndex := index
      value := output.value
      height
      coinbase := tx.isCoinbase }

/-- `parseTxOutputs` on the confirmed store. -/
def parseTxOutputs (σ : LevelUpStore) (tx : Tx) (blockHash : Hash) (height : Int) : LevelUpStore :=
  (newOutputs tx height).foldl (fun σ output => σ.parseTxOutput output blockHash) σ

/-- The first pass: in transaction order, then in vout order. -/
def parseOutputs (σ : LevelUpStore) (transactions : List Tx) (blockHash : Hash) (height : Int) :
    LevelUpStore :=
  transactions.foldl
    (fun σ tx => (σ.insertTransaction tx.id (some blockHash)).parseTxOutputs tx blockHash height) σ

/-- The inputs the second pass removes. -/
def removeInputs (transactions : List Tx) (blockHash : Hash) : List SpentInput :=
  transactions.flatMap fun tx =>
    (tx.ins.filter TxIn.spends).map fun input => ⟨input.hash, input.index, blockHash⟩

def parseBlockTransactions (σ : LevelUpStore) (transactions : List Tx) (blockHash : Hash)
    (height : Int) : Except String LevelUpStore :=
  (σ.parseOutputs transactions blockHash height).removeOutputsWithInputsBatch
    (removeInputs transactions blockHash)

end LevelUpStore

namespace Tracker

/-- Stage one block, opening the batch on its first. -/
def stageBlock (t : Tracker) (block : Block) (height : Int) : Except String Tracker := do
  let store := if t.blocksQuantity = 0 then t.db.beginTransaction else t.db
  let store := store.insertBlock block.hash height block.timestamp block.prevHash
  let store ← store.parseBlockTransactions block.transactions block.hash height
  .ok ({ t with db := store }.addToLastBlocks block.hash)

/-- Count the block into the batch and move the in-memory cursor onto it. -/
def advanceCursor (t : Tracker) (blockHash : Hash) (height : Int) : Tracker :=
  { t with
    blocksQuantity := t.blocksQuantity + 1
    lastProcessedBlockIndex := height
    lastProcessedBlockHash := some blockHash }

/-- `indexNextBlock` on a fetched block: `none` when its parent is not the cursor, which starts the
reorg path. -/
def indexNextBlock (t : Tracker) (block : Block) : Option (Except String Tracker) :=
  let height := t.lastProcessedBlockIndex + 1
  if 0 < height ∧ some block.prevHash ≠ t.lastProcessedBlockHash then none
  else some do
    let t ← t.stageBlock block height
    .ok (t.advanceCursor block.hash height)

/-- `flushBatch` up to the commit: the tip pointer and the aged-out blocks go with the batch. -/
def commitBatch (t : Tracker) (blockHash : Hash) (height : Int) : Except String Tracker := do
  let store := (t.db.setLastBlockHeight height).setLastBlockHash blockHash
  let store :=
    if t.pendingKMCleanup = [] then store
    else store.addTransaction .pendingCleanup (.put (.hashList t.pendingKMCleanup))
  let store ← store.endTransaction true
  .ok { t with db := store }

/-- `finishFlushedBlock`: the next block opens a fresh batch. -/
def finishFlushedBlock (t : Tracker) : Tracker := { t with blocksQuantity := 0 }

end Tracker

end UtxoTracker

import Mathlib
import UtxoTracker.Lib.KeyedStore
import UtxoTracker.Store.ValueCodec
/-!
# The store's scans over raw rows

The scans of `output_cleanup.js`, `output_scripts.js`, `inputs.js`, `blocks_and_transactions.js` and
`store_lifecycle.js` as they are written: over the rows of the database in the order of their keys,
cutting fields out of key bytes and joining the bytes of the keys they stage.
-/

namespace UtxoTracker.RawStore

open KeyedStore ByteString ByteOrder

abbrev Row := List UInt8 × List UInt8

/-- A staged write. -/
abbrev Op := List UInt8 × WriteOp (List UInt8)

variable (rows : List Row)

/-- `buf.slice(start, stop)` -/
def slice (buf : List UInt8) (start stop : Nat) : List UInt8 := (buf.take stop).drop start

/-- `db.get` -/
def get (key : List UInt8) : Option (List UInt8) :=
  (rows.find? fun row => row.1 = key).map Prod.snd

/-- `decodeTx(buf).bh` -/
def decodeTx (buf : List UInt8) : List Char := toHex (slice buf 0 32)

/-! ### Rolling a block back -/

def processDeletedOutputsInDb (blockHash : List Char) (recover processOutputHints : Bool) :
    List Op :=
  let prefixBuf := (if processOutputHints then P_HINT_DEL else P_OUT_DEL) :: ofHex blockHash
  (iterator rows prefixBuf).flatMap fun row =>
    (if recover then
      [((if processOutputHints then P_OUT_HINT else P_OUTPUT) :: row.1.drop 33,
        WriteOp.put row.2)]
    else []) ++ [(row.1, .del)]

def removeCreatedOutputsInBlock (blockHash : List Char) : List Op :=
  (iterator rows (P_OUT_BLK :: ofHex blockHash)).flatMap fun row =>
    [(P_OUTPUT :: (row.2 ++ (slice row.1 33 65 ++ slice row.1 65 69)), .del),
      (P_OUT_HINT :: (slice row.1 33 65 ++ slice row.1 65 69), .del),
      (row.1, .del)]

def removeOutputScriptsInBlock (blockHash : List Char) : List Op :=
  (iterator rows (P_BLK_SCRIPT :: ofHex blockHash)).flatMap fun row =>
    [(P_SCRIPT_BLK :: row.1.drop 33, .del), (row.1, .del)]

def deleteTransaction (txid : List Char) : List Op :=
  [(P_TX_EXACT :: ofHex txid, .del), (P_TX :: ofHex txid, .del)]

def deleteTxBlockRecord (txidHex blockHash : List Char) : List Op :=
  let recoveryKey := P_TX_BLOCK_RECOVERY :: (ofHex blockHash ++ ofHex txidHex)
  match get rows recoveryKey with
  | none => deleteTransaction txidHex
  | some _ =>
      (if (get rows (P_TX :: ofHex txidHex)).map decodeTx = some blockHash then
        [(P_TX :: ofHex txidHex, .del)] else []) ++
      (if (get rows (P_TX_EXACT :: ofHex txidHex)).map decodeTx = some blockHash then
        [(P_TX_EXACT :: ofHex txidHex, .del)] else []) ++
      [(recoveryKey, .del)]

/-- The loop of `deleteTransactionsInBlock`, which takes each txid once. -/
def deleteTransactionsLoop (blockHash : List Char) : List Row → List (List Char) → List Op
  | [], _ => []
  | row :: rest, seenTxids =>
      let txidHex := toHex (slice row.1 33 65)
      if txidHex ∈ seenTxids then deleteTransactionsLoop blockHash rest seenTxids
      else
        deleteTxBlockRecord rows txidHex blockHash ++
          deleteTransactionsLoop blockHash rest (txidHex :: seenTxids)

def deleteTransactionsInBlock (blockHash : List Char) : List Op :=
  deleteTransactionsLoop rows blockHash (iterator rows (P_OUT_BLK :: ofHex blockHash)) []

def deleteBlock (blockHash : List Char) : List Op :=
  deleteTransactionsInBlock rows blockHash ++ [(P_BLOCK :: ofHex blockHash, .del)]

/-! ### Pruning -/

/-- The loop of the three `…IndexOnly` functions. -/
def removeIndexOnly (family : UInt8) (blockHash : List Char) : List Op :=
  (iterator rows (family :: ofHex blockHash)).map fun row => (row.1, .del)

def removeCreatedOutputsBlockIndexOnly := removeIndexOnly rows P_OUT_BLK

def removeOutputScriptsBlockIndexOnly := removeIndexOnly rows P_BLK_SCRIPT

def removeTxBlockRecoveryIndexOnly := removeIndexOnly rows P_TX_BLOCK_RECOVERY

/-! ### The open batch -/

/-- The staged write of a key: the last one. -/
def lastOp (batch : List Op) (key : List UInt8) : Option (WriteOp (List UInt8)) :=
  batch.reverse.lookup key

def removeTransactionIfExists (batch : List Op) (key : List UInt8) : Option (List Op) :=
  match lastOp batch key with
  | some (.put _) => some (batch.filter fun op => op.1 ≠ key)
  | _ => none

def removeLastStoredBlock (batch : List Op) (blockHash : List Char) : List Op :=
  match removeTransactionIfExists batch (P_STORED_BLK :: ofHex blockHash) with
  | some batch => batch
  | none => batch ++ [(P_STORED_BLK :: ofHex blockHash, .del)]

/-- `Number.prototype.toString(16)` -/
def hexNumberText (n : Int) : List Char :=
  if n < 0 then '-' :: Nat.toDigits 16 n.natAbs else Nat.toDigits 16 n.natAbs

/-- The batch of `rollBackTipBlock`, for a tip whose `B` record names `height` and the block `ph`. -/
def rollBackTipBlock (lastBlockHash ph : List Char) (height : Int) : List Op :=
  removeLastStoredBlock
      (removeOutputScriptsInBlock rows lastBlockHash ++
        processDeletedOutputsInDb rows lastBlockHash true false ++
        processDeletedOutputsInDb rows lastBlockHash true true ++
        removeCreatedOutputsInBlock rows lastBlockHash ++
        deleteBlock rows lastBlockHash) lastBlockHash ++
    [(PREFIX_LAST_BLOCK_HASH, .put (asciiBytes ph)),
      (PREFIX_LAST_BLOCK_HEIGHT, .put (asciiBytes (hexNumberText (height - 1))))]

def pruneAgedBlockRecords (batch : List Op) (blockHash : List Char) : List Op :=
  removeLastStoredBlock
      (batch ++ processDeletedOutputsInDb rows blockHash false false ++
        processDeletedOutputsInDb rows blockHash false true) blockHash ++
    removeCreatedOutputsBlockIndexOnly rows blockHash ++
    removeOutputScriptsBlockIndexOnly rows blockHash ++
    removeTxBlockRecoveryIndexOnly rows blockHash

/-- The batch of `cleanupAgedBlocks`. -/
def cleanupAgedBlocks (toClean : List (List Char)) : List Op :=
  toClean.foldl (pruneAgedBlockRecords rows) [] ++ [(P_PENDING_CLEANUP_KEY, .del)]

/-- Is a row on disk after a batch? -/
def Written (batch : List Op) (row : Row) : Prop :=
  match lastOp batch row.1 with
  | some (.put value) => value = row.2
  | some .del => False
  | none => row ∈ rows

/-- The rows after a batch went to disk. -/
structure Committed (batch : List Op) (rows' : List Row) : Prop where
  sorted : rows'.Pairwise fun row row' => bytewiseLe row.1 row'.1 = true ∧ row.1 ≠ row'.1
  mem_iff : ∀ row, row ∈ rows' ↔ Written rows batch row

/-! ### The mempool store -/

def deleteInputsByHint (txid : List Char) : List Op :=
  (iterator rows (P_IN_HINT :: ofHex txid)).flatMap fun row =>
    [(P_INPUT :: (slice row.1 33 65 ++ slice row.1 65 69), .del), (row.1, .del)]

def deleteOutputsByHint (txid : List Char) : List Op :=
  (iterator rows (P_OUT_HINT :: ofHex txid)).flatMap fun row =>
    [(P_OUTPUT :: (row.2 ++ (ofHex txid ++ slice row.1 33 37)), .del), (row.1, .del)]

/-! ### Reads -/

def getLastStoredBlocks : List (List Char) :=
  (iterator rows [P_STORED_BLK]).map fun row => toHex (row.1.drop 1)

/-- `parseOutputCursor` has split the cursor into the txid's digits and the vout. -/
structure Output where
  txid : List Char
  vout : Nat
  decoded : ValueCodec.DecodedOutput
  deriving DecidableEq

/-- An iterator that starts strictly after `bound` where there is one. -/
def pageIterator (start : List UInt8) : Option (List UInt8) → List Row
  | none => iterator rows start
  | some bound =>
      rows.filter fun row =>
        !bytewiseLe row.1 bound && bytewiseLe row.1 (rangeEnd start)

/-- An `O` row of the loop. -/
def readOutput (row : Row) : Except ValueCodec.CodecError Output := do
  let decoded ← ValueCodec.decodeOutput row.2
  .ok ⟨toHex (slice row.1 33 65), ofBE (slice row.1 65 69), decoded⟩

/-- The `O` rows that `getOutputsScriptPubKey` walks, decoded. -/
def outputsAfter (scriptPubKey : List Char) (after : Option (List Char × Nat)) :
    Except ValueCodec.CodecError (List Output) :=
  let start := P_OUTPUT :: ofHex scriptPubKey
  let bound := after.map fun cursor => start ++ (ofHex cursor.1 ++ toBE 4 cursor.2)
  (pageIterator rows start bound).mapM readOutput

end UtxoTracker.RawStore

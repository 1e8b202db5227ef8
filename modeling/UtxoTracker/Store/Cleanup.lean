import UtxoTracker.Store.LevelUpStore
/-!
# Removing a block's records

Range scans over the per-block families. A rollback restores or deletes what a block's records name;
pruning an aged-out block drops the records alone. Every scan reads the database, never the open
batch.
-/

namespace UtxoTracker

open KeyedStore

namespace LevelUpStore

variable (σ : LevelUpStore) (blockHash : Hash)

/-! ### `K` and `M`: the outputs a block spent -/

/-- The staged writes for one `K` entry. -/
def outDelOps (recover : Bool) (key : Key) (value : Value) : Option (List (Key × WriteOp Value)) :=
  match key with
  | .outDel h script txid idx =>
      if h = blockHash then
        some ((if recover then [(.output script txid idx, .put value)] else []) ++
          [(.outDel h script txid idx, .del)])
      else none
  | _ => none

/-- The staged writes for one `M` entry. -/
def hintDelOps (recover : Bool) (key : Key) (value : Value) : Option (List (Key × WriteOp Value)) :=
  match key with
  | .hintDel h txid idx =>
      if h = blockHash then
        some ((if recover then [(.outHint txid idx, .put value)] else []) ++
          [(.hintDel h txid idx, .del)])
      else none
  | _ => none

/-- `processDeletedOutputsInDb`, over `K` or over `M`. -/
def processDeletedOutputsInDb (recover processOutputHints : Bool) : LevelUpStore :=
  σ.addTransactions
    (scan σ.db
      (if processOutputHints then hintDelOps blockHash recover
        else outDelOps blockHash recover)).flatten

/-- Stage again the puts that this batch's own spends in the block removed. A value that was never
there (a staged delete) restores nothing. -/
def replayDeleted (inner : Std.ExtTreeMap Key (Option Value)) : LevelUpStore :=
  σ.addTransactions (scan inner fun key value => value.map fun value => (key, .put value))

def processDeletedOutputs (recover : Bool) : LevelUpStore :=
  let σ :=
    match σ.deletedTransactionArray with
    | none => σ
    | some deleted =>
        match deleted[blockHash]? with
        | none => σ
        | some inner =>
            let σ := if recover then σ.replayDeleted inner else σ
            { σ with deletedTransactionArray := some (deleted.erase blockHash) }
  (σ.processDeletedOutputsInDb blockHash recover false).processDeletedOutputsInDb blockHash recover
    true

/-! ### `W`: the outputs a block created -/

/-- A `W` entry of the block: the output's script, txid and index. -/
def outBlkEntry (key : Key) (value : Value) : Option (Hash × Hash × Nat) :=
  match key with
  | .outBlk h txid idx =>
      if h = blockHash then (decodeHash value).map fun script => (script, txid, idx) else none
  | _ => none

def removeCreatedOutputsInBlock : LevelUpStore :=
  σ.addTransactions
    ((scan σ.db (outBlkEntry blockHash)).flatMap fun (script, txid, idx) =>
      [(.output script txid idx, .del), (.outHint txid idx, .del), (.outBlk blockHash txid idx, .del)])

/-! ### `Z`: the scripts a block was first to carry -/

def blkScriptEntry (key : Key) (_ : Value) : Option Hash :=
  match key with
  | .blkScript h script => if h = blockHash then some script else none
  | _ => none

/-- The known scripts are forgotten whenever an entry goes. -/
def removeOutputScriptsInBlock : LevelUpStore :=
  let scripts := scan σ.db (blkScriptEntry blockHash)
  let σ := σ.addTransactions (scripts.flatMap fun script =>
    [(.scriptBlk script, .del), (.blkScript blockHash script, .del)])
  if scripts = [] then σ else { σ with knownScripts := ∅ }

/-! ### `T`, `X` and `Y`: the transactions of a block -/

/-- `deleteTransaction`: no block to check against. -/
def deleteTransactionOps (txid : Hash) : List (Key × WriteOp Value) :=
  [(.txExact txid, .del), (.tx txid, .del)]

/-- `deleteTxBlockRecord`: with a `Y` record, `T` and `X` go only while they name this block. -/
def deleteTxBlockRecordOps (txid : Hash) : List (Key × WriteOp Value) :=
  match σ.db[Key.txBlockRecovery blockHash txid]? with
  | none => deleteTransactionOps txid
  | some _ =>
      (if (σ.db[Key.tx txid]?).bind decodeTx = some blockHash then [(.tx txid, .del)] else []) ++
        (if (σ.db[Key.txExact txid]?).bind decodeTx = some blockHash then [(.txExact txid, .del)]
          else []) ++
        [(.txBlockRecovery blockHash txid, .del)]

def outBlkTxid (key : Key) (_ : Value) : Option Hash :=
  match key with
  | .outBlk h txid _ => if h = blockHash then some txid else none
  | _ => none

/-- The txids of the block's `W` keys, each once. -/
def outBlkTxids : List Hash := (scan σ.db (outBlkTxid blockHash)).eraseDups

def deleteTransactionsInBlock : LevelUpStore :=
  σ.addTransactions ((σ.outBlkTxids blockHash).flatMap (σ.deleteTxBlockRecordOps blockHash))

def deleteBlock : LevelUpStore :=
  (σ.deleteTransactionsInBlock blockHash).addTransaction (.block blockHash) .del

/-! ### Pruning -/

/-- The keys of one per-block index. -/
inductive BlockIndex where
  | outBlk
  | blkScript
  | txBlockRecovery
  deriving DecidableEq, Repr

def BlockIndex.entry (index : BlockIndex) (key : Key) (_ : Value) : Option (Key × WriteOp Value) :=
  match index, key with
  | .outBlk, .outBlk h txid idx => if h = blockHash then some (.outBlk h txid idx, .del) else none
  | .blkScript, .blkScript h script =>
      if h = blockHash then some (.blkScript h script, .del) else none
  | .txBlockRecovery, .txBlockRecovery h txid =>
      if h = blockHash then some (.txBlockRecovery h txid, .del) else none
  | _, _ => none

/-- Delete one family's records of a block and nothing they name. -/
def removeIndexOnly (index : BlockIndex) : LevelUpStore :=
  σ.addTransactions (scan σ.db (index.entry blockHash))

def removeCreatedOutputsBlockIndexOnly : LevelUpStore := σ.removeIndexOnly blockHash .outBlk

def removeOutputScriptsBlockIndexOnly : LevelUpStore := σ.removeIndexOnly blockHash .blkScript

def removeTxBlockRecoveryIndexOnly : LevelUpStore := σ.removeIndexOnly blockHash .txBlockRecovery

end LevelUpStore

end UtxoTracker

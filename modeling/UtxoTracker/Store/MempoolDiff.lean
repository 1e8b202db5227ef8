import UtxoTracker.Store.Cleanup
import UtxoTracker.Store.KeyCodec
/-!
# The mempool list diff

A pass sorts the node's listing by inserting each txid at its binary-search position, then walks the
stored transactions: one that is listed is taken out of the list, one that is not is staged for
deletion with its inputs and outputs. The search and the comparison of texts are parameters.
-/

namespace UtxoTracker

open KeyedStore

/-- A txid as text. -/
abbrev TxidText := List Char

namespace MempoolDiff

variable (bs : List TxidText → TxidText → (TxidText → TxidText → Int) → Int)
  (localeCompare : TxidText → TxidText → Int)

/-! ### Sorting the listing -/

/-- One round of `insertSortedTxids`: `splice(-newIndex-1, 0, txid)` unless it is there. -/
def insertSortedTxid (rawMempool : List TxidText) (nextUnorderedItem : TxidText) : List TxidText :=
  let newIndex := bs rawMempool nextUnorderedItem localeCompare
  if newIndex < 0 then
    rawMempool.take (-newIndex - 1).toNat ++
      nextUnorderedItem :: rawMempool.drop (-newIndex - 1).toNat
  else rawMempool

def insertSortedTxids (rawMempool rawMempoolUnordered : List TxidText) : List TxidText :=
  rawMempoolUnordered.foldl (insertSortedTxid bs localeCompare) rawMempool

/-! ### Deleting by hint -/

/-- A `J` entry of the transaction: the outpoint it spends. -/
def inHintEntry (txid : Hash) (key : Key) (_ : Value) : Option (Hash × Nat) :=
  match key with
  | .inHint t prevTxid idx => if t = txid then some (prevTxid, idx) else none
  | _ => none

/-- The staged writes of `deleteInputsByHint`. -/
def deleteInputsByHintOps (txid : Hash) (entry : Hash × Nat) : List (Key × WriteOp Value) :=
  [(.input entry.1 entry.2, .del), (.inHint txid entry.1 entry.2, .del)]

/-- The count of inputs deleted, and the store. -/
def deleteInputsByHint (σ : LevelUpStore) (txid : Hash) : Nat × LevelUpStore :=
  let entries := scan σ.db (inHintEntry txid)
  (entries.length, σ.addTransactions (entries.flatMap (deleteInputsByHintOps txid)))

/-- An `H` entry of the transaction: an output's script and index. -/
def outHintEntry (txid : Hash) (key : Key) (value : Value) : Option (Hash × Nat) :=
  match key with
  | .outHint t idx => if t = txid then (decodeHash value).map fun script => (script, idx) else none
  | _ => none

/-- The staged writes of `deleteOutputsByHint`. -/
def deleteOutputsByHintOps (txid : Hash) (entry : Hash × Nat) : List (Key × WriteOp Value) :=
  [(.output entry.1 txid entry.2, .del), (.outHint txid entry.2, .del)]

def deleteOutputsByHint (σ : LevelUpStore) (txid : Hash) : Nat × LevelUpStore :=
  let entries := scan σ.db (outHintEntry txid)
  (entries.length, σ.addTransactions (entries.flatMap (deleteOutputsByHintOps txid)))

/-- `Promise.all` over the txids, and the sum of the counts. The calls only stage deletions. -/
def deleteByHints (deleteByHint : LevelUpStore → Hash → Nat × LevelUpStore) (σ : LevelUpStore) :
    List Hash → Nat × LevelUpStore
  | [] => (0, σ)
  | txid :: txids =>
      let first := deleteByHint σ txid
      let rest := deleteByHints deleteByHint first.2 txids
      (first.1 + rest.1, rest.2)

def deleteInputsByHints := deleteByHints deleteInputsByHint

def deleteOutputsByHints := deleteByHints deleteOutputsByHint

/-! ### The diff -/

/-- A `T` entry. -/
def txEntry (key : Key) (_ : Value) : Option Hash :=
  match key with
  | .tx txid => some txid
  | _ => none

/-- What the walk over the stored transactions changes. -/
structure DiffState where
  txidList : List TxidText
  deletedTxs : List Hash
  store : LevelUpStore

/-- One stored transaction. -/
def compareTx (keepOnly : Bool) (state : DiffState) (txid : Hash) : DiffState :=
  let txidIndex := bs state.txidList (hashText txid) localeCompare
  if txidIndex < 0 then
    if keepOnly then state
    else
      { state with
        deletedTxs := state.deletedTxs ++ [txid]
        store := state.store.addTransactions (LevelUpStore.deleteTransactionOps txid) }
  else { state with txidList := state.txidList.eraseIdx txidIndex.toNat }

structure DeletedInfo where
  transactionsDeleted : Nat
  outputsDeleted : Nat
  inputsDeleted : Nat
  deriving DecidableEq

/-- The counts, the list left and the store. The iterator reads the database as it was opened on it. -/
def deleteAndCompareTxsNotInList (σ : LevelUpStore) (txidList : List TxidText) (keepOnly : Bool) :
    DeletedInfo × DiffState :=
  let walked := (scan σ.db txEntry).foldl (compareTx bs localeCompare keepOnly) ⟨txidList, [], σ⟩
  let inputs := deleteInputsByHints walked.store walked.deletedTxs
  let outputs := deleteOutputsByHints inputs.2 walked.deletedTxs
  (⟨walked.deletedTxs.length, outputs.1, inputs.1⟩, { walked with store := outputs.2 })

end MempoolDiff

end UtxoTracker

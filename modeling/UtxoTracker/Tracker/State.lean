import Mathlib.Data.List.Sort
import UtxoTracker.Store.Layout
/-!
# Blocks and the tracker's state

The decoded blocks the node serves, and the tracker with its working state: the undo window, the
pending cleanup list, the window's watermark and the sync loop's cursor.
-/

namespace UtxoTracker

open KeyedStore

/-! ### Decoded blocks -/

/-- An input: the outpoint it names and its `standard_input` flag, true when absent. -/
structure TxIn where
  hash : Hash
  index : Nat
  standardInput : Bool := true
  deriving DecidableEq, Repr

/-- An output: the SHA-256 of its script, and its value. -/
structure TxOut where
  scriptHash : Hash
  value : Nat
  deriving DecidableEq, Repr

structure Tx where
  id : Hash
  ins : List TxIn
  outs : List TxOut
  deriving DecidableEq, Repr

structure Block where
  hash : Hash
  prevHash : Hash
  timestamp : Nat
  transactions : List Tx
  deriving DecidableEq, Repr

/-- The index of a coinbase input, `0xFFFFFFFF`. -/
def coinbaseIndex : Nat := 4294967295

/-- `isCoinbaseTransaction`: its only input is a coinbase input. -/
def Tx.isCoinbase (tx : Tx) : Bool :=
  match tx.ins with
  | [input] => input.index = coinbaseIndex
  | _ => false

/-- A coinbase input and a non-standard input spend nothing. -/
def TxIn.spends (input : TxIn) : Bool := input.index ≠ coinbaseIndex ∧ input.standardInput

/-! ### The tracker -/

structure Tracker where
  db : LevelUpStore
  /-- The undo window, oldest block first. -/
  lastBlocks : List Hash
  pendingKMCleanup : List Hash
  undoBlocks : Nat
  undoWindowWatermark : Nat
  undoWindowWatermarkPersisted : Option Nat
  lastProcessedBlockIndex : Int
  lastProcessedBlockHash : Option Hash
  /-- Blocks staged in the open batch. -/
  blocksQuantity : Nat
  reorgRollbacksThisProcess : Nat
  reorgCount : Nat
  lastReorgDepth : Nat

namespace Tracker

/-! ### Loading -/

/-- Sort by height, keeping the order of equals. -/
def sortByHeight (blocks : List (Hash × Int)) : List (Hash × Int) :=
  blocks.insertionSort fun a b => a.2 ≤ b.2

/-- The stored blocks in ascending height order, the tip last. A block without a record sorts
first. -/
def loadLastBlocksSortedByHeight (db : LevelUpStore) : List Hash :=
  (sortByHeight (db.getLastStoredBlocks.map fun hash =>
    (hash, ((db.getBlock hash).map BlockRecord.h).getD (-1)))).map Prod.fst

/-- `loadUndoWindowWatermark`: the stored mark, 0 when there is none. -/
def storedWatermark (db : LevelUpStore) : Nat :=
  match db.db[Key.undoWatermark]? with
  | some (.decimalText n) => n
  | _ => 0

/-- `loadSyncCursor`'s read of the `P` key, taken up by `recoverPendingCleanup`. -/
def storedPendingCleanup (db : LevelUpStore) : List Hash :=
  match db.db[Key.pendingCleanup]? with
  | some (.hashList hashes) => hashes
  | _ => []

/-- The state `start` enters the sync loop with, on an accepted store. -/
def load (db : Db) (undoBlocks : Nat) : Tracker :=
  let store := LevelUpStore.createDatabase db
  let stored := storedWatermark store
  { db := store
    lastBlocks := loadLastBlocksSortedByHeight store
    pendingKMCleanup := storedPendingCleanup store
    undoBlocks
    undoWindowWatermark := min stored undoBlocks
    undoWindowWatermarkPersisted := if 0 < stored then some stored else none
    lastProcessedBlockIndex := store.getLastBlockHeight
    lastProcessedBlockHash := store.getLastBlockHash
    blocksQuantity := 0
    reorgRollbacksThisProcess := 0
    reorgCount := 0
    lastReorgDepth := 0 }

/-- `start`, up to the sync loop: pass the layout gate, then load. -/
def start (db : Db) (undoBlocks : Nat) : Except LayoutRefusal Tracker := do
  let (_, db) ← ensureLayoutVersion db true
  .ok (load db undoBlocks)

end Tracker

end UtxoTracker

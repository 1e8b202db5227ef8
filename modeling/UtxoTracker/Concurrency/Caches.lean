import UtxoTracker.Tracker.System
/-!
# The process-global caches

`outputCache` and `knownScripts` are statics of the store class. The mempool store shares them, and
its writers run while the confirmed store's writers await. What they can do to the caches is to drop
entries, so a block is staged here under an arbitrary loss of entries before every read of a cache.
Losing nothing is the tracker on its own; losing everything is a tracker whose caches are always
empty.
-/

namespace UtxoTracker

open KeyedStore

namespace LevelUpStore

variable (σ : LevelUpStore)

/-- The store with both caches empty. -/
def forget : LevelUpStore := { σ with outputCache := ∅, knownScripts := ∅ }

/-- The store with the caches of another one. -/
def withCaches (m : LevelUpStore) : LevelUpStore :=
  { σ with outputCache := m.outputCache, knownScripts := m.knownScripts }

/-- `σ'` is `σ` with cache entries gone. -/
structure Loses (σ σ' : LevelUpStore) : Prop where
  db : σ'.db = σ.db
  transactionArray : σ'.transactionArray = σ.transactionArray
  deletedTransactionArray : σ'.deletedTransactionArray = σ.deletedTransactionArray
  outputs : ∀ (o : OutPoint) (record : OutputRecord),
    σ'.outputCache[o]? = some record → σ.outputCache[o]? = some record
  scripts : σ'.knownScripts ⊆ σ.knownScripts

/-! ### The mempool store -/

/-- `parseTransaction` on the mempool store: no block hash, and height -1. -/
def parseMempoolTransaction (tx : Tx) : LevelUpStore :=
  (newOutputs tx (-1)).foldl
    (fun σ output => (((σ.insertOutput output).insertOutputHint output).insertOutputScriptBlock
      output.scriptPubKey none output.height).insertOutputBlock output none)
    (σ.insertTransaction tx.id none)

/-- What the mempool loop calls on its store. -/
inductive MempoolCall where
  | createDatabase
  | beginTransaction
  | parseTransaction (tx : Tx)
  /-- A put or a delete of its own families, or of a pruned transaction's records. -/
  | addTransaction (key : Key) (op : WriteOp Value)
  | endTransaction (batch : Bool)
  deriving DecidableEq

/-- One call; a failed commit changes nothing. -/
def MempoolCall.run (m : LevelUpStore) : MempoolCall → LevelUpStore
  | .createDatabase => LevelUpStore.createDatabase ∅
  | .beginTransaction => m.beginTransaction
  | .parseTransaction tx => m.parseMempoolTransaction tx
  | .addTransaction key op => m.addTransaction key op
  | .endTransaction batch =>
      match m.endTransaction batch with
      | .ok m => m
      | .error _ => m

/-- The confirmed store after calls on the mempool store `m`, which finds and leaves the shared
caches. -/
def during (m : LevelUpStore) (calls : List MempoolCall) : LevelUpStore :=
  σ.withCaches (calls.foldl MempoolCall.run (m.withCaches σ))

end LevelUpStore

/-! ### Losing entries while a block is staged -/

/-- How the caches shrink before the script of each output and the value of each input is looked
up. -/
structure CacheLoss where
  atScript : OutPoint → LevelUpStore → LevelUpStore
  atLookup : OutPoint → LevelUpStore → LevelUpStore
  script_loses : ∀ o σ, LevelUpStore.Loses σ (atScript o σ)
  lookup_loses : ∀ o σ, LevelUpStore.Loses σ (atLookup o σ)

namespace LevelUpStore

theorem Loses.refl (σ : LevelUpStore) : Loses σ σ := ⟨rfl, rfl, rfl, fun _ _ h => h, subset_rfl⟩

theorem loses_forget (σ : LevelUpStore) : Loses σ σ.forget :=
  ⟨rfl, rfl, rfl, fun o record hget => by simp [forget] at hget, Finset.empty_subset _⟩

end LevelUpStore

/-- Nothing else runs. -/
def CacheLoss.none : CacheLoss where
  atScript _ σ := σ
  atLookup _ σ := σ
  script_loses _ := .refl
  lookup_loses _ := .refl

/-- Both caches are empty whenever they are read. -/
def CacheLoss.all : CacheLoss where
  atScript _ := LevelUpStore.forget
  atLookup _ := LevelUpStore.forget
  script_loses _ := LevelUpStore.loses_forget
  lookup_loses _ := LevelUpStore.loses_forget

namespace LevelUpStore

variable (loss : CacheLoss) (σ : LevelUpStore)

def parseTxOutputUnder (output : NewOutput) (blockHash : Hash) : LevelUpStore :=
  (loss.atScript output.outPoint σ).parseTxOutput output blockHash

def parseTxOutputsUnder (tx : Tx) (blockHash : Hash) (height : Int) : LevelUpStore :=
  (newOutputs tx height).foldl (fun σ output => parseTxOutputUnder loss σ output blockHash) σ

def parseOutputsUnder (transactions : List Tx) (blockHash : Hash) (height : Int) : LevelUpStore :=
  transactions.foldl
    (fun σ tx =>
      parseTxOutputsUnder loss (σ.insertTransaction tx.id (some blockHash)) tx blockHash height) σ

def outputLookupsUnder : List (SpentInput × Resolved) → LevelUpStore →
    LevelUpStore × List (SpentInput × Resolved)
  | [], σ => (σ, [])
  | (input, found) :: rest, σ =>
      let (σ, found) := (loss.atLookup input.outPoint σ).outputLookup input found
      let (σ, resolved) := outputLookupsUnder rest σ
      (σ, (input, found) :: resolved)

def removeOutputsWithInputsBatchUnder (inputs : List SpentInput) : Except String LevelUpStore :=
  let hints := inputs.map fun input => (input, σ.hintLookup input)
  let (σ, resolved) := outputLookupsUnder loss hints σ
  stageSpends resolved σ

def parseBlockTransactionsUnder (transactions : List Tx) (blockHash : Hash) (height : Int) :
    Except String LevelUpStore :=
  removeOutputsWithInputsBatchUnder loss (parseOutputsUnder loss σ transactions blockHash height)
    (removeInputs transactions blockHash)

end LevelUpStore

namespace Tracker

variable (loss : CacheLoss) (t : Tracker)

def stageBlockUnder (block : Block) (height : Int) : Except String Tracker := do
  let store := if t.blocksQuantity = 0 then t.db.beginTransaction else t.db
  let store := store.insertBlock block.hash height block.timestamp block.prevHash
  let store ← store.parseBlockTransactionsUnder loss block.transactions block.hash height
  .ok ({ t with db := store }.addToLastBlocks block.hash)

def indexNextBlockUnder (block : Block) : Option (Except String Tracker) :=
  let height := t.lastProcessedBlockIndex + 1
  if 0 < height ∧ some block.prevHash ≠ t.lastProcessedBlockHash then none
  else some do
    let t ← t.stageBlockUnder loss block height
    .ok (t.advanceCursor block.hash height)

/-- The tracker with both caches empty. -/
def forget : Tracker := { t with db := t.db.forget }

end Tracker

/-! ### The two trackers -/

/-- The system with both caches empty. -/
def Sys.forget (s : Sys) : Sys := { s with tracker := s.tracker.forget }

/-- A step of the tracker while the mempool loop runs: a block is staged under some loss, entries go
between two steps, or the loop takes any other step. -/
inductive CachedStep : Sys → Sys → Prop where
  | stage {s : Sys} {b : Block} {t : Tracker} (loss : CacheLoss) (hphase : s.phase = .idle)
      (hvalid : ValidBlock s.full b) (hrun : s.tracker.indexNextBlockUnder loss b = some (.ok t)) :
      CachedStep s (s.afterStage b t)
  | lose {s : Sys} {σ : LevelUpStore} (hloses : s.tracker.db.Loses σ) :
      CachedStep s { s with tracker := { s.tracker with db := σ } }
  | other {s s' : Sys} (hstep : Step s s') (hnone : s'.staged.length ≤ s.staged.length) :
      CachedStep s s'

/-- A step of the tracker whose caches are always empty. -/
inductive CachelessStep : Sys → Sys → Prop where
  | stage {s : Sys} {b : Block} {t : Tracker} (hphase : s.phase = .idle)
      (hvalid : ValidBlock s.full b) (hrun : s.tracker.indexNextBlockUnder .all b = some (.ok t)) :
      CachelessStep s (s.afterStage b t).forget
  | other {s s' : Sys} (hstep : Step s s') (hnone : s'.staged.length ≤ s.staged.length) :
      CachelessStep s s'.forget

end UtxoTracker

import UtxoTracker.Store.MempoolDiff
import UtxoTracker.Tracker.Apply
/-!
# The mempool store

The store of unconfirmed transactions, which every launch starts empty. A pass of `updateMempool`
prunes it against the node's listing and then stages what is new, one committed batch after another;
between passes a flush deletes the transactions it has just confirmed. The binary search and the
comparison of texts are parameters, and so is what the node serves for a txid.
-/

namespace UtxoTracker.Mempool

open KeyedStore LevelUpStore MempoolDiff

/-! ### Parsing a transaction -/

def insertInput (σ : LevelUpStore) (prevTxHash : Hash) (prevOutputIndex : Nat) (txHash : Hash) :
    LevelUpStore :=
  σ.addTransaction (.input prevTxHash prevOutputIndex) (.put (.hash txHash))

def insertInputHint (σ : LevelUpStore) (prevTxHash : Hash) (prevOutputIndex : Nat)
    (txHash : Hash) : LevelUpStore :=
  σ.addTransaction (.inHint txHash prevTxHash prevOutputIndex) (.put .empty)

/-- The inputs of `parseTransaction` with hints and without `removeSpent`. -/
def parseTransactionInputs (σ : LevelUpStore) (tx : Tx) : LevelUpStore :=
  (tx.ins.filter TxIn.spends).foldl
    (fun σ input =>
      insertInputHint (insertInput σ input.hash input.index tx.id) input.hash input.index tx.id) σ

/-- Its outputs, without a block and at height -1. -/
def parseTransactionOutputs (σ : LevelUpStore) (tx : Tx) : LevelUpStore :=
  (newOutputs tx (-1)).foldl
    (fun σ output => (((σ.insertOutput output).insertOutputHint output).insertOutputScriptBlock
      output.scriptPubKey none output.height).insertOutputBlock output none) σ

/-- `parseTransaction(mempoolDb, tx, null, -1, true)` -/
def parseTransaction (σ : LevelUpStore) (tx : Tx) : LevelUpStore :=
  parseTransactionOutputs (parseTransactionInputs (σ.insertTransaction tx.id none) tx) tx

/-! ### Staging a batch -/

/-- `MEMPOOL_BATCH_SIZE` -/
def batchSize : Nat := 1000

/-- What `getRawTransactions` and the decoder give for one txid. -/
inductive Fetched where
  | missing
  | malformed
  | parsed (tx : Tx)
  deriving DecidableEq

inductive StageError where
  | malformed
  | parsesTo (nodeTxid : Option TxidText) (computedTxid : Hash)
  | commit (message : String)
  deriving DecidableEq

/-- A transaction with an input or an output. -/
def Transparent (tx : Tx) : Prop := ¬ (tx.ins = [] ∧ tx.outs = [])

/-- A transaction without inputs and outputs is skipped, one of another txid ends the pass. -/
def isStageableMempoolTx (tx : Tx) (nodeTxid : Option TxidText) : Except StageError Bool :=
  if tx.ins = [] ∧ tx.outs = [] then .ok false
  else if nodeTxid ≠ some (hashText tx.id) then .error (.parsesTo nodeTxid tx.id)
  else .ok true

/-- The loop of `stageMempoolBatch`. -/
def stageTxs (σ : LevelUpStore) : List Fetched → List TxidText → Except StageError LevelUpStore
  | [], _ => .ok σ
  | .missing :: rest, txids => stageTxs σ rest txids.tail
  | .malformed :: _, _ => .error .malformed
  | .parsed tx :: rest, txids => do
      let stageable ← isStageableMempoolTx tx txids.head?
      stageTxs (if stageable then parseTransaction σ tx else σ) rest txids.tail

def stageMempoolBatch (σ : LevelUpStore) (fetched : List Fetched) (nodeTxids : List TxidText) :
    Except StageError LevelUpStore := do
  let staged ← stageTxs σ.beginTransaction fetched nodeTxids
  (staged.endTransaction true).mapError .commit

/-! ### Pruning -/

variable (bs : List TxidText → TxidText → (TxidText → TxidText → Int) → Int)
  (localeCompare : TxidText → TxidText → Int)

/-- The list left to fetch, and the store. -/
def pruneMempoolStore (σ : LevelUpStore) (rawMempool : List TxidText) (mayDelete : Bool) :
    Except String (List TxidText × LevelUpStore) := do
  let state := (deleteAndCompareTxsNotInList bs localeCompare σ.beginTransaction rawMempool
    (!mayDelete)).2
  let store ← state.store.endTransaction true
  .ok (state.txidList, store)

/-- The deletions of `commitWithMempoolCleanup`. -/
def stageCleanup (σ : LevelUpStore) (cleanupTxids : List Hash) : LevelUpStore :=
  cleanupTxids.foldl
    (fun σ txid => (deleteInputsByHint (deleteOutputsByHint σ txid).2 txid).2.addTransactions
      (deleteTransactionOps txid)) σ.beginTransaction

/-! ### Passes and flushes -/

/-- The store, and what a pass under way has still to fetch. -/
structure MempoolStore where
  store : LevelUpStore
  pass : Option (List TxidText)

/-- `createDatabase`: nothing is stored. -/
def initial : MempoolStore := ⟨createDatabase ∅, none⟩

/-- One commit of a pass or of a flush, or the end of a pass. `mempoolBusy` keeps a second pass and
a flush out while one is under way. A txid names one transaction: `body`. -/
inductive Step (body : Hash → Tx) : MempoolStore → MempoolStore → Prop where
  /-- `updateMempool` up to the prune's commit. -/
  | pruned {σ σ' : LevelUpStore} {rawMempool : List TxidText} (listing : List Hash)
      (mayDelete : Bool)
      (hprune : pruneMempoolStore bs localeCompare σ
        (MempoolDiff.insertSortedTxids bs localeCompare [] (listing.map hashText)) mayDelete =
          .ok (rawMempool, σ')) :
      Step body ⟨σ, none⟩ ⟨σ', some rawMempool⟩
  /-- A batch was fetched, staged and committed. -/
  | batch {σ σ' : LevelUpStore} {pending : List TxidText} (fetched : List Fetched)
      (hbody : ∀ tx, .parsed tx ∈ fetched → Transparent tx → tx = body tx.id)
      (hstage : stageMempoolBatch σ fetched (pending.take batchSize) = .ok σ') :
      Step body ⟨σ, some pending⟩ ⟨σ', some (pending.drop batchSize)⟩
  /-- `markMempoolReconverged` -/
  | finished {σ : LevelUpStore} : Step body ⟨σ, some []⟩ ⟨σ, none⟩
  /-- The cleanup of a flush. -/
  | cleaned {σ σ' : LevelUpStore} (cleanupTxids : List Hash)
      (hclean : (stageCleanup σ cleanupTxids).endTransaction true = .ok σ') :
      Step body ⟨σ, none⟩ ⟨σ', none⟩
  /-- A pass or a flush failed before its next commit, and its batch was dropped. -/
  | failed {σ σ' : LevelUpStore} {pass : Option (List TxidText)} (hdb : σ'.db = σ.db) :
      Step body ⟨σ, pass⟩ ⟨σ', none⟩

/-- The node has every transaction asked for. -/
def Available (body : Hash → Tx) (fetched : List Fetched) (nodeTxids : List TxidText) : Prop :=
  List.Forall₂ (fun answer text => ∃ t, text = hashText t ∧ answer = .parsed (body t)) fetched
    nodeTxids

/-- The batches of a pass that no fault ends. -/
inductive Reconverges (body : Hash → Tx) : LevelUpStore → List TxidText → LevelUpStore → Prop where
  | done {σ : LevelUpStore} : Reconverges body σ [] σ
  | batch {σ σ' σ'' : LevelUpStore} {pending : List TxidText} (fetched : List Fetched)
      (hpending : pending ≠ []) (havailable : Available body fetched (pending.take batchSize))
      (hstage : stageMempoolBatch σ fetched (pending.take batchSize) = .ok σ')
      (hrest : Reconverges body σ' (pending.drop batchSize) σ'') :
      Reconverges body σ pending σ''

/-- A pass that reaches `markMempoolReconverged`. -/
def CompletesPass (body : Hash → Tx) (σ : LevelUpStore) (listing : List Hash) (mayDelete : Bool)
    (σ' : LevelUpStore) : Prop :=
  ∃ rawMempool σ₁, pruneMempoolStore bs localeCompare σ
      (MempoolDiff.insertSortedTxids bs localeCompare [] (listing.map hashText)) mayDelete =
        .ok (rawMempool, σ₁) ∧
    Reconverges body σ₁ rawMempool σ'

end UtxoTracker.Mempool

import UtxoTracker.Store.Records
/-!
# The staged store

`LevelUpStore` holds the durable database and the open batch laid over it. Its writers stage into
the batch when one is open and write through otherwise. The two read caches are process-global in
the source; they describe the confirmed store alone, so the model keeps them beside it.
-/

namespace UtxoTracker

open KeyedStore

/-- `OUTPUT_CACHE_MAX` -/
def outputCacheMax : Nat := 2000000

/-- `KNOWN_SCRIPTS_MAX` -/
def knownScriptsMax : Nat := 2000000

/-- The writes staged since `beginTransaction`. -/
abbrev TransactionArray := Std.ExtTreeMap Key (WriteOp Value)

/-- For each spending block, the staged puts its spends removed. -/
abbrev DeletedTransactionArray := Std.ExtTreeMap Hash (Std.ExtTreeMap Key (Option Value))

structure LevelUpStore where
  db : Db
  transactionArray : Option TransactionArray
  deletedTransactionArray : Option DeletedTransactionArray
  outputCache : Std.ExtTreeMap OutPoint OutputRecord
  knownScripts : Finset Hash

namespace LevelUpStore

variable (σ : LevelUpStore)

/-! ### Lifecycle -/

/-- A store opened on a database: the constructor's empty batch, and both caches reset. -/
def createDatabase (db : Db) : LevelUpStore :=
  { db
    transactionArray := some ∅
    deletedTransactionArray := some ∅
    outputCache := ∅
    knownScripts := ∅ }

def beginTransaction : LevelUpStore :=
  { σ with transactionArray := some ∅, deletedTransactionArray := some ∅ }

/-- What `endTransaction` throws, with the cause's own text. -/
def batchFailure (cause : String) : String := "Error in LevelDB batch inserting: " ++ cause

/-- Commit the open batch in one atomic write, or drop it. Dropping forgets the known scripts too:
the batch may hold the only record of one. Committing with no open batch throws. -/
def endTransaction (batch : Bool) : Except String LevelUpStore :=
  if batch then
    match σ.transactionArray with
    | none => .error (batchFailure "Cannot read properties of null (reading 'values')")
    | some staged =>
        .ok { σ with
          db := applyBatch σ.db staged
          transactionArray := none
          deletedTransactionArray := none }
  else
    .ok { σ with
      transactionArray := none
      deletedTransactionArray := none
      knownScripts := ∅ }

/-- `endTransaction(false)`, which cannot fail. -/
def discardTransaction : LevelUpStore :=
  { σ with transactionArray := none, deletedTransactionArray := none, knownScripts := ∅ }

/-! ### Staging -/

/-- The value a put of the open batch holds for `key`. A staged delete reads as nothing. -/
def getTransactionValue (key : Key) : Option Value :=
  match σ.transactionArray with
  | none => none
  | some staged =>
      match staged[key]? with
      | some (.put value) => some value
      | _ => none

def addTransaction (key : Key) (op : WriteOp Value) : LevelUpStore :=
  match σ.transactionArray with
  | some staged => { σ with transactionArray := some (staged.insert key op) }
  | none => { σ with db := applyOp σ.db key op }

/-- A scan's writes, staged one after another. -/
def addTransactions (ops : List (Key × WriteOp Value)) : LevelUpStore :=
  ops.foldl (fun σ entry => σ.addTransaction entry.1 entry.2) σ

/-- Cancel a put of this batch; a staged delete stays. `none` when there is no put to cancel. -/
def removeTransactionIfExists (key : Key) : Option LevelUpStore :=
  match σ.transactionArray with
  | none => none
  | some staged =>
      match staged[key]? with
      | some (.put _) => some { σ with transactionArray := some (staged.erase key) }
      | _ => none

/-- Drop the staged write for `key`, recording its value under the spending block. `none` stands
for the `false` that every caller turns into a throw. -/
def removeTransaction (key : Key) (deletedKey : Hash) : Option LevelUpStore :=
  match σ.transactionArray, σ.deletedTransactionArray with
  | some staged, some deleted =>
      match staged[key]? with
      | none => none
      | some op =>
          let value : Option Value :=
            match op with
            | .put value => some value
            | .del => none
          let inner := (deleted[deletedKey]?).getD ∅
          some { σ with
            transactionArray := some (staged.erase key)
            deletedTransactionArray := some (deleted.insert deletedKey (inner.insert key value)) }
  | _, _ => none

/-! ### Blocks, the tip and the stored-block list -/

def insertBlock (hash : Hash) (height : Int) (timestamp : Nat) (previousHash : Hash) :
    LevelUpStore :=
  σ.addTransaction (.block hash) (.put (.block ⟨height, timestamp, previousHash⟩))

def getBlock (blockHash : Hash) : Option BlockRecord :=
  (σ.db[Key.block blockHash]?).bind decodeBlock

/-- `-1` when no tip was ever committed. -/
def getLastBlockHeight : Int :=
  match σ.db[Key.lastBlockHeight]? with
  | some (.hexText height) => height
  | _ => -1

def setLastBlockHeight (height : Int) : LevelUpStore :=
  σ.addTransaction .lastBlockHeight (.put (.hexText height))

def getLastBlockHash : Option Hash :=
  match σ.db[Key.lastBlockHash]? with
  | some (.hashText hash) => some hash
  | _ => none

def setLastBlockHash (hash : Hash) : LevelUpStore :=
  σ.addTransaction .lastBlockHash (.put (.hashText hash))

def addLastStoredBlock (blockHash : Hash) : LevelUpStore :=
  σ.addTransaction (.storedBlk blockHash) (.put .empty)

def removeLastStoredBlock (blockHash : Hash) : LevelUpStore :=
  match σ.removeTransactionIfExists (.storedBlk blockHash) with
  | some σ' => σ'
  | none => σ.addTransaction (.storedBlk blockHash) .del

/-- A `B` entry: the block's hash and record. -/
def blockEntry (key : Key) (value : Value) : Option (Hash × BlockRecord) :=
  match key with
  | .block hash => (decodeBlock value).map fun record => (hash, record)
  | _ => none

/-- The scan keeps the first of the highest blocks it has met. -/
def higherBlock (best : Option (Hash × BlockRecord)) (candidate : Hash × BlockRecord) :
    Option (Hash × BlockRecord) :=
  match best with
  | none => some candidate
  | some known => if known.2.h < candidate.2.h then some candidate else some known

/-- The stored block of greatest height, the first in key order among equals. -/
def getLastBlock : Option (Hash × BlockRecord) := (scan σ.db blockEntry).foldl higherBlock none

def storedBlkAccept (key : Key) (_ : Value) : Option Hash :=
  match key with
  | .storedBlk hash => some hash
  | _ => none

/-- The hashes of the `N` records, in key order. -/
def getLastStoredBlocks : List Hash := scan σ.db storedBlkAccept

/-! ### What each primitive does to the batch -/

/-- What a reader of the open batch sees: its writes laid over the database. -/
def staged (key : Key) : Option (WriteOp Value) :=
  (σ.transactionArray.getD ∅)[key]?

/-- The value a key has once the open batch is committed. -/
def effective (key : Key) : Option Value := overlay (σ.staged key) σ.db[key]?

/-- A batch is open. -/
def Open : Prop := σ.transactionArray.isSome ∧ σ.deletedTransactionArray.isSome

variable {σ}

theorem getTransactionValue_eq (key : Key) :
    σ.getTransactionValue key =
      match σ.staged key with
      | some (.put value) => some value
      | _ => none := by
  unfold getTransactionValue staged
  cases σ.transactionArray with
  | none => simp
  | some staged => rfl

@[simp]
theorem addTransaction_outputCache (key : Key) (op : WriteOp Value) :
    (σ.addTransaction key op).outputCache = σ.outputCache := by
  unfold addTransaction
  cases σ.transactionArray <;> rfl

@[simp]
theorem addTransaction_knownScripts (key : Key) (op : WriteOp Value) :
    (σ.addTransaction key op).knownScripts = σ.knownScripts := by
  unfold addTransaction
  cases σ.transactionArray <;> rfl

@[simp]
theorem addTransaction_deletedTransactionArray (key : Key) (op : WriteOp Value) :
    (σ.addTransaction key op).deletedTransactionArray = σ.deletedTransactionArray := by
  unfold addTransaction
  cases σ.transactionArray <;> rfl

theorem Open.addTransaction (hopen : σ.Open) (key : Key) (op : WriteOp Value) :
    (σ.addTransaction key op).Open := by
  obtain ⟨staged, hstaged⟩ := Option.isSome_iff_exists.mp hopen.1
  simp only [LevelUpStore.addTransaction, hstaged]
  exact ⟨rfl, hopen.2⟩

theorem Open.addTransaction_db (hopen : σ.Open) (key : Key) (op : WriteOp Value) :
    (σ.addTransaction key op).db = σ.db := by
  obtain ⟨staged, hstaged⟩ := Option.isSome_iff_exists.mp hopen.1
  simp only [LevelUpStore.addTransaction, hstaged]

theorem Open.addTransaction_staged (hopen : σ.Open) (key : Key) (op : WriteOp Value) (k : Key) :
    (σ.addTransaction key op).staged k = if key = k then some op else σ.staged k := by
  obtain ⟨staged, hstaged⟩ := Option.isSome_iff_exists.mp hopen.1
  simp only [LevelUpStore.addTransaction, LevelUpStore.staged, hstaged, Option.getD_some]
  simp [Std.ExtTreeMap.getElem?_insert]

/-! A list of staged writes leaves the database and the caches alone. -/

section Writes

variable (ops : List (Key × WriteOp Value))

theorem addTransactions_append (first second : List (Key × WriteOp Value)) :
    σ.addTransactions (first ++ second) = (σ.addTransactions first).addTransactions second :=
  List.foldl_append

@[simp]
theorem addTransactions_outputCache : (σ.addTransactions ops).outputCache = σ.outputCache := by
  induction ops generalizing σ with
  | nil => rfl
  | cons entry rest ih => exact ih.trans (addTransaction_outputCache _ _)

@[simp]
theorem addTransactions_knownScripts : (σ.addTransactions ops).knownScripts = σ.knownScripts := by
  induction ops generalizing σ with
  | nil => rfl
  | cons entry rest ih => exact ih.trans (addTransaction_knownScripts _ _)

@[simp]
theorem addTransactions_deletedTransactionArray :
    (σ.addTransactions ops).deletedTransactionArray = σ.deletedTransactionArray := by
  induction ops generalizing σ with
  | nil => rfl
  | cons entry rest ih => exact ih.trans (addTransaction_deletedTransactionArray _ _)

variable {ops}

theorem Open.addTransactions (hopen : σ.Open) (ops : List (Key × WriteOp Value)) :
    (σ.addTransactions ops).Open := by
  induction ops generalizing σ with
  | nil => exact hopen
  | cons entry rest ih => exact ih (hopen.addTransaction _ _)

theorem Open.addTransactions_db (hopen : σ.Open) (ops : List (Key × WriteOp Value)) :
    (σ.addTransactions ops).db = σ.db := by
  induction ops generalizing σ with
  | nil => rfl
  | cons entry rest ih => exact (ih (hopen.addTransaction _ _)).trans (hopen.addTransaction_db _ _)

theorem Open.addTransactions_transactionArray (hopen : σ.Open)
    (ops : List (Key × WriteOp Value)) :
    (σ.addTransactions ops).transactionArray =
      some (stageAll ops (σ.transactionArray.getD ∅)) := by
  induction ops generalizing σ with
  | nil =>
      obtain ⟨staged, hstaged⟩ := Option.isSome_iff_exists.mp hopen.1
      simp [LevelUpStore.addTransactions, hstaged]
  | cons entry rest ih =>
      obtain ⟨staged, hstaged⟩ := Option.isSome_iff_exists.mp hopen.1
      have hrest := ih (hopen.addTransaction entry.1 entry.2)
      simp only [LevelUpStore.addTransaction, hstaged, Option.getD_some] at hrest
      simpa only [LevelUpStore.addTransactions, List.foldl_cons, LevelUpStore.addTransaction,
        hstaged, Option.getD_some, stageAll] using hrest

theorem Open.staged_addTransactions_of_notMem (hopen : σ.Open) {k : Key}
    (habsent : ∀ op, (k, op) ∉ ops) : (σ.addTransactions ops).staged k = σ.staged k := by
  rw [LevelUpStore.staged, hopen.addTransactions_transactionArray, Option.getD_some,
    getElem?_stageAll_of_notMem habsent, LevelUpStore.staged]

theorem Open.staged_addTransactions_of_mem (hopen : σ.Open) {k : Key} {op : WriteOp Value}
    (hmem : (k, op) ∈ ops) (huniq : ∀ op', (k, op') ∈ ops → op' = op) :
    (σ.addTransactions ops).staged k = some op := by
  rw [LevelUpStore.staged, hopen.addTransactions_transactionArray, Option.getD_some,
    getElem?_stageAll_of_mem hmem huniq]

end Writes

/-! Opening and closing a batch. -/

theorem open_beginTransaction : σ.beginTransaction.Open := ⟨rfl, rfl⟩

@[simp]
theorem beginTransaction_staged (key : Key) : σ.beginTransaction.staged key = none := by
  simp [beginTransaction, staged]

@[simp]
theorem discardTransaction_staged (key : Key) : σ.discardTransaction.staged key = none := by
  simp [discardTransaction, staged]

/-- A commit makes the effective value of every key durable. -/
theorem Open.endTransaction (hopen : σ.Open) :
    ∃ σ', σ.endTransaction true = .ok σ' ∧ (∀ k, σ'.db[k]? = σ.effective k) ∧
      σ'.transactionArray = none ∧ σ'.deletedTransactionArray = none ∧
      σ'.outputCache = σ.outputCache ∧ σ'.knownScripts = σ.knownScripts := by
  obtain ⟨staged, hstaged⟩ := Option.isSome_iff_exists.mp hopen.1
  refine ⟨{ σ with
      db := applyBatch σ.db staged
      transactionArray := none
      deletedTransactionArray := none }, ?_, fun k => ?_, rfl, rfl, rfl, rfl⟩
  · simp only [LevelUpStore.endTransaction, hstaged, if_true]
  rw [getElem?_applyBatch, effective, LevelUpStore.staged, hstaged, Option.getD_some]

end LevelUpStore

end UtxoTracker

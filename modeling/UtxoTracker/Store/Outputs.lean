import UtxoTracker.Store.LevelUpStore
/-!
# Writing and spending outputs

The writers of the `T`, `X`, `Y`, `O`, `H`, `W`, `S` and `Z` families, and the batched spend path
with its recovery records. A writer called without a block hash serves the mempool store, which
keeps none of the per-block families.
-/

namespace UtxoTracker

open KeyedStore

namespace LevelUpStore

variable (σ : LevelUpStore)

/-! ### Transactions -/

/-- `ZERO_HASH` -/
def zeroHash : Hash := 0

def insertTransaction (hash : Hash) (blockHash : Option Hash) : LevelUpStore :=
  let σ := σ.addTransaction (.tx hash) (.put (.txRecord (blockHash.getD zeroHash) hash))
  match blockHash with
  | none => σ
  | some blockHash =>
      (σ.addTransaction (.txExact hash) (.put (.hash blockHash))).addTransaction
        (.txBlockRecovery blockHash hash) (.put (.hash hash))

/-! ### Outputs -/

/-- The argument of `insertOutput` and its companions. Every caller passes the txid itself as the
full txid. -/
structure NewOutput where
  scriptPubKey : Hash
  txHash : Hash
  outputIndex : Nat
  value : Nat
  height : Int
  coinbase : Bool
  deriving DecidableEq, Repr

def NewOutput.outPoint (output : NewOutput) : OutPoint := ⟨output.txHash, output.outputIndex⟩

/-- `encodeOutput` -/
def NewOutput.record (output : NewOutput) : OutputRecord :=
  ⟨output.value, output.height, output.txHash, output.coinbase⟩

/-- Remember a confirmed output; an overfull cache starts again. -/
def cacheOutput (output : NewOutput) : LevelUpStore :=
  if 0 ≤ output.height then
    let cache := σ.outputCache.insert output.outPoint output.record
    { σ with outputCache := if outputCacheMax < cache.size then ∅ else cache }
  else σ

def insertOutput (output : NewOutput) : LevelUpStore :=
  (σ.cacheOutput output).addTransaction
    (.output output.scriptPubKey output.txHash output.outputIndex) (.put (.output output.record))

def insertOutputHint (output : NewOutput) : LevelUpStore :=
  σ.addTransaction (.outHint output.txHash output.outputIndex) (.put (.hash output.scriptPubKey))

def insertOutputBlock (output : NewOutput) (blockHash : Option Hash) : LevelUpStore :=
  match blockHash with
  | none => σ
  | some blockHash =>
      σ.addTransaction (.outBlk blockHash output.txHash output.outputIndex)
        (.put (.hash output.scriptPubKey))

/-! ### First-seen scripts -/

def rememberScript (script : Hash) : LevelUpStore :=
  { σ with knownScripts := insert script σ.knownScripts }

def trimKnownScripts : LevelUpStore :=
  if knownScriptsMax < σ.knownScripts.card then { σ with knownScripts := ∅ } else σ

/-- Record a script the store has not seen: known from an earlier batch, staged in this one, on
disk, or new. -/
def insertOutputScriptBlock (script : Hash) (blockHash : Option Hash) (blockHeight : Int) :
    LevelUpStore :=
  match blockHash with
  | none => σ
  | some blockHash =>
      let σ := σ.trimKnownScripts
      if script ∈ σ.knownScripts then σ
      else if (σ.getTransactionValue (.scriptBlk script)).isSome then σ.rememberScript script
      else if (σ.db[Key.scriptBlk script]?).isSome then σ.rememberScript script
      else
        ((σ.addTransaction (.scriptBlk script) (.put (.scriptBlk blockHeight))).addTransaction
          (.blkScript blockHash script) (.put .empty)).rememberScript script

/-! ### Spending -/

/-- One spent input of a block. -/
structure SpentInput where
  prevTxHash : Hash
  prevOutputIndex : Nat
  blockHash : Hash
  deriving DecidableEq, Repr

/-- `JSON.stringify` of an input. -/
def SpentInput.json (input : SpentInput) : String :=
  "\x7b\"prevTxHash\":" ++ jsonString input.prevTxHash.text ++ ",\"prevOutputIndex\":"
    ++ toString input.prevOutputIndex ++ ",\"blockHash\":" ++ jsonString input.blockHash.text
    ++ "\x7d"

def SpentInput.outPoint (input : SpentInput) : OutPoint := ⟨input.prevTxHash, input.prevOutputIndex⟩

def SpentInput.hKey (input : SpentInput) : Key := .outHint input.prevTxHash input.prevOutputIndex

def SpentInput.oKey (input : SpentInput) (script : Hash) : Key :=
  .output script input.prevTxHash input.prevOutputIndex

def SpentInput.mKey (input : SpentInput) : Key :=
  .hintDel input.blockHash input.prevTxHash input.prevOutputIndex

def SpentInput.kKey (input : SpentInput) (script : Hash) : Key :=
  .outDel input.blockHash script input.prevTxHash input.prevOutputIndex

/-- What the lookups found for one input. -/
inductive Resolved where
  /-- No `H` record: the input is skipped. -/
  | missing
  /-- The output is staged in the open batch. -/
  | inMem (script : Hash)
  /-- The output is on disk, with its `O` value when there is one. -/
  | onDisk (script : Hash) (oVal : Option Value)
  deriving DecidableEq, Repr

/-- `queueHintLookups` and `applyHintValues` for one input: the open batch first, then the disk. -/
def hintLookup (input : SpentInput) : Resolved :=
  match (σ.getTransactionValue input.hKey).bind decodeHash with
  | some script => .inMem script
  | none =>
      match (σ.db[input.hKey]?).bind decodeHash with
      | some script => .onDisk script none
      | none => .missing

/-- `queueOutputLookups` and `applyOutputValues` for one input. A cache hit is taken out of the
cache; a miss reads the disk. -/
def outputLookup (input : SpentInput) (found : Resolved) : LevelUpStore × Resolved :=
  match found with
  | .missing => (σ, .missing)
  | .inMem script => (σ, .inMem script)
  | .onDisk script _ =>
      match σ.outputCache[input.outPoint]? with
      | some record =>
          ({ σ with outputCache := σ.outputCache.erase input.outPoint },
            .onDisk script (some (.output record)))
      | none => (σ, .onDisk script σ.db[input.oKey script]?)

/-- Both lookup phases over the inputs of a block. -/
def outputLookups : List (SpentInput × Resolved) → LevelUpStore →
    LevelUpStore × List (SpentInput × Resolved)
  | [], σ => (σ, [])
  | (input, found) :: rest, σ =>
      let (σ, found) := σ.outputLookup input found
      let (σ, resolved) := outputLookups rest σ
      (σ, (input, found) :: resolved)

/-- The height of the block this batch is indexing, read from its staged `B` record. -/
def spendBlockHeightInBatch (blockHash : Hash) : Option Int :=
  ((σ.getTransactionValue (.block blockHash)).bind decodeBlock).map BlockRecord.h

/-- Keep an output that this batch both creates and spends, when its creating block is strictly
older: a reorg can split the two blocks. -/
def writeCrossBlockSpendRecovery (input : SpentInput) (script : Hash) (oVal : Option Value) :
    LevelUpStore :=
  match oVal with
  | none => σ
  | some oVal =>
      match (decodeOutput oVal).map OutputRecord.h, σ.spendBlockHeightInBatch input.blockHash with
      | some createdHeight, some spendHeight =>
          if createdHeight < 0 then σ
          else if spendHeight ≤ createdHeight then σ
          else
            (σ.addTransaction input.mKey (.put (.hash script))).addTransaction (input.kKey script)
              (.put oVal)
      | _, _ => σ

/-- `unstageInMemorySpend`: drop the staged `O` and `H` puts, handing back the staged value. -/
def unstageInMemorySpend (input : SpentInput) (script : Hash) :
    Except String (LevelUpStore × Option Value) :=
  let oVal := σ.getTransactionValue (input.oKey script)
  match σ.removeTransaction (input.oKey script) input.blockHash with
  | none => .error ("Missing output match for input " ++ input.json)
  | some σ =>
      match σ.removeTransaction input.hKey input.blockHash with
      | none => .error ("Missing outputHintKey match for input " ++ input.json)
      | some σ => .ok (σ, oVal)

/-- The staging phase for one input. -/
def stageSpend (input : SpentInput) (found : Resolved) : Except String LevelUpStore :=
  match found with
  | .missing => .ok σ
  | .inMem script => do
      let (σ, oVal) ← σ.unstageInMemorySpend input script
      .ok (σ.writeCrossBlockSpendRecovery input script oVal)
  -- `H` without `O`: the source warns and leaves both alone.
  | .onDisk _ none => .ok σ
  | .onDisk script (some oVal) =>
      .ok ((((σ.addTransaction input.mKey (.put (.hash script))).addTransaction
        (input.kKey script) (.put oVal)).addTransaction (input.oKey script) .del).addTransaction
        input.hKey .del)

def stageSpends : List (SpentInput × Resolved) → LevelUpStore → Except String LevelUpStore
  | [], σ => .ok σ
  | (input, found) :: rest, σ => do
      let σ ← σ.stageSpend input found
      stageSpends rest σ

/-- Every hint is looked up before any output, and every output before anything is staged. -/
def removeOutputsWithInputsBatch (inputs : List SpentInput) : Except String LevelUpStore :=
  let hints := inputs.map fun input => (input, σ.hintLookup input)
  let (σ, resolved) := outputLookups hints σ
  stageSpends resolved σ

/-- `removeOutputWithInput`: one input, the disk asked before the open batch. -/
def removeOutputWithInput (input : SpentInput) : Except String LevelUpStore :=
  let script := (σ.db[input.hKey]?).bind decodeHash
  let oVal := script.bind fun script => σ.db[input.oKey script]?
  match script, oVal with
  | some script, some oVal =>
      .ok ((((σ.addTransaction input.mKey (.put (.hash script))).addTransaction
        (input.kKey script) (.put oVal)).addTransaction (input.oKey script) .del).addTransaction
        input.hKey .del)
  | _, _ =>
      match (σ.getTransactionValue input.hKey).bind decodeHash with
      | some inMemScript => do
          let (σ, inMemOVal) ← σ.unstageInMemorySpend input inMemScript
          .ok (σ.writeCrossBlockSpendRecovery input inMemScript inMemOVal)
      -- `H` without `O`, or neither: a warning either way.
      | none => .ok σ

/-- One call after another. -/
def removeOutputsOneByOne : List SpentInput → LevelUpStore → Except String LevelUpStore
  | [], σ => .ok σ
  | input :: rest, σ => do
      let σ ← σ.removeOutputWithInput input
      removeOutputsOneByOne rest σ

end LevelUpStore

end UtxoTracker

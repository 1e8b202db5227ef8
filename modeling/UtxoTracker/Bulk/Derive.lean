import Mathlib.Data.List.Lex
import UtxoTracker.Bulk.Parse
import UtxoTracker.Lib.AntiJoin
import UtxoTracker.Lib.ExternalSort
/-!
# Deriving the store's records

The second half of the bulk pipeline up to the loader: the unspent outputs are joined out of the
parse streams, and every prefix file is derived from them in key order.
-/

namespace UtxoTracker.Bulk

open ExternalSort

/-! ### Sorting -/

/-- `planRuns`: the records of one run, by the RAM budget and by the array limit. -/
def recordsPerRun (ramBudgetBytes recordSize : Nat) : Nat :=
  max 1 (min (ramBudgetBytes / recordSize) (2 ^ 26))

/-- The default budget, 1 GiB. -/
def defaultRamBudget : Nat := 1024 * 1024 * 1024

/-- A sort call, its budget defaulted. -/
def sortBy {ρ : Type} (ramBudgetBytes recordSize : Nat) (key : ρ → List Nat) (records : List ρ) :
    List ρ :=
  let budget := if ramBudgetBytes = 0 then defaultRamBudget else ramBudgetBytes
  externalSort key (recordsPerRun budget recordSize) records

/-! ### Rows -/

/-- A row of a prefix file that is loaded as it stands. -/
abbrev Row := Key × Value

def rowKey (row : Row) : List Nat := row.1.fields

/-- A row of `O.dat`, its value of fixed width with the coinbase byte. -/
structure OutputRow where
  scriptPubKey : Hash
  txid : Hash
  vout : Nat
  value : Nat
  height : Nat
  coinbase : Bool
  deriving DecidableEq, Repr

def OutputRow.key (row : OutputRow) : List Nat :=
  [row.scriptPubKey.toNat, row.txid.toNat, row.vout]

/-- A row of `T.dat`, the block height after its key. -/
structure TxRow where
  txid : Hash
  height : Nat
  blockHash : Hash
  deriving DecidableEq, Repr

def TxRow.key (row : TxRow) : List Nat := [row.txid.toNat, row.height]

/-- A script candidate, one for each output. -/
structure ScriptCandidate where
  scriptHash : Hash
  rowId : Nat
  blockHash : Hash
  height : Nat
  deriving DecidableEq, Repr

def ScriptCandidate.key (candidate : ScriptCandidate) : List Nat :=
  [candidate.scriptHash.toNat, candidate.rowId]

/-- Keep a record when its key differs from the one before it. -/
def firstOfRuns {ρ κ : Type} [DecidableEq κ] (key : ρ → κ) : Option κ → List ρ → List ρ
  | _, [] => []
  | prev, record :: rest =>
      if prev = some (key record) then firstOfRuns key prev rest
      else record :: firstOfRuns key (some (key record)) rest

/-! ### The passes -/

structure DeriveOptions where
  undoBlocks : Nat
  ramBudgetBytes : Nat
  txIndex : Bool
  deriving DecidableEq, Repr

inductive DeriveError where
  /-- An output's row number does not fit its 4-byte field. -/
  | rowIdOverflow (rowId : Nat)
  | noBlocks
  deriving DecidableEq, Repr

/-- The markers of `L.json`. -/
structure LastMarkers where
  lastBlockHeight : Nat
  lastBlockHash : Hash
  txIndex : Bool
  deriving DecidableEq, Repr

/-- The sorted `T`, `X` and `Y` files of a run with the tx index on. -/
structure TxIndexFiles where
  T : List TxRow
  X : List Row
  Y : List Row
  deriving DecidableEq, Repr

/-- The files of a completed derive. -/
structure DerivedKeys where
  B : List Row
  H : List Row
  N : List Row
  O : List OutputRow
  S : List Row
  W : List Row
  Z : List Row
  txIndexFiles : Option TxIndexFiles
  L : LastMarkers
  deriving DecidableEq, Repr

/-- `B` of one block. -/
def blockRow (blk : MetaRecord) : Row :=
  (.block blk.blockHash, .block ⟨blk.height, blk.timestamp, blk.previousHash⟩)

/-- `nWindow`: the last `undoBlocks` block hashes. -/
def pushWindow (undoBlocks : Nat) (window : List Hash) (blockHash : Hash) : List Hash :=
  let window := window ++ [blockHash]
  if undoBlocks < window.length then window.tail else window

def nWindow (undoBlocks : Nat) (blocks : List MetaRecord) : List Hash :=
  blocks.foldl (fun window blk => pushWindow undoBlocks window blk.blockHash) []

/-- `writeLiveOutputRecords`: `H` and `O` of an unspent output. -/
def hintRow (record : OutputsRecord) : Row :=
  (.outHint record.txid record.vout, .hash record.scriptPubKey)

def outputRow (record : OutputsRecord) : OutputRow :=
  { scriptPubKey := record.scriptPubKey
    txid := record.txid
    vout := record.vout
    value := record.value
    height := record.height
    coinbase := record.coinbase }

/-- `writeCandidateAndWRecords`: one candidate for each output, numbered in file order. -/
def scriptCandidates (outputs : List OutputsRecord) : List ScriptCandidate :=
  outputs.mapIdx fun rowId record => ⟨record.scriptPubKey, rowId, record.blockHash, record.height⟩

/-- `W` of an output. -/
def outBlkRow (record : OutputsRecord) : Row :=
  (.outBlk record.blockHash record.txid record.vout, .hash record.scriptPubKey)

/-- `writeFirstSeenScriptRecords`: `S` and `Z` of a script's first candidate. -/
def scriptRow (candidate : ScriptCandidate) : Row :=
  (.scriptBlk candidate.scriptHash, .scriptBlk candidate.height)

def blkScriptRow (candidate : ScriptCandidate) : Row :=
  (.blkScript candidate.blockHash candidate.scriptHash, .empty)

/-- `T`, `X` and `Y` of a transaction, read off its first output. -/
def txRow (record : OutputsRecord) : TxRow := ⟨record.txid, record.height, record.blockHash⟩

def txExactRow (record : OutputsRecord) : Row := (.txExact record.txid, .hash record.blockHash)

def txBlockRecoveryRow (record : OutputsRecord) : Row :=
  (.txBlockRecovery record.blockHash record.txid, .hash record.txid)

/-- `deriveTxIndexKeys` -/
def deriveTxIndexKeys (opts : DeriveOptions) (outputs : List OutputsRecord) (wMinHeight : Nat) :
    TxIndexFiles :=
  let firsts := firstOfRuns OutputsRecord.txid none outputs
  let windowed := firsts.filter fun record => wMinHeight ≤ record.height
  { T := sortBy opts.ramBudgetBytes 101 TxRow.key (firsts.map txRow)
    X := sortBy opts.ramBudgetBytes 65 rowKey (firsts.map txExactRow)
    Y := sortBy opts.ramBudgetBytes 97 rowKey (windowed.map txBlockRecoveryRow) }

/-- `deriveKeys` on the meta stream, the outputs stream and the unspent outputs. -/
def deriveKeys (opts : DeriveOptions) (blocks : List MetaRecord)
    (outputs liveUtxos : List OutputsRecord) : Except DeriveError DerivedKeys :=
  let lastHeight : Int := ((blocks.getLast?).map fun blk => (blk.height : Int)).getD (-1)
  let wMinHeight := (max 0 (lastHeight - opts.undoBlocks + 1)).toNat
  if 0xFFFFFFFF + 1 < outputs.length then .error (.rowIdOverflow (0xFFFFFFFF + 1))
  else
    let candidates :=
      sortBy opts.ramBudgetBytes 72 ScriptCandidate.key (scriptCandidates outputs)
    let firstSeen := firstOfRuns ScriptCandidate.scriptHash none candidates
    match blocks.getLast? with
    | none => .error .noBlocks
    | some last =>
        .ok
          { B := sortBy opts.ramBudgetBytes 73 rowKey (blocks.map blockRow)
            H := liveUtxos.map hintRow
            N := sortBy opts.ramBudgetBytes 33 rowKey
              ((nWindow opts.undoBlocks blocks).map fun hash => (.storedBlk hash, .empty))
            O := sortBy opts.ramBudgetBytes 114 OutputRow.key (liveUtxos.map outputRow)
            S := firstSeen.map scriptRow
            W := sortBy opts.ramBudgetBytes 101 rowKey
              ((outputs.filter fun record => wMinHeight ≤ record.height).map outBlkRow)
            Z := sortBy opts.ramBudgetBytes 65 rowKey
              ((firstSeen.filter fun candidate => wMinHeight ≤ candidate.height).map blkScriptRow)
            txIndexFiles :=
              if opts.txIndex then some (deriveTxIndexKeys opts outputs wMinHeight) else none
            L := ⟨last.height, last.blockHash, opts.txIndex⟩ }

end UtxoTracker.Bulk

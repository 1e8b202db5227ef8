import UtxoTracker.Lib.Resumption
import UtxoTracker.Store.Queries
/-!
# Address reads

`getBalanceInfo`, `getUtxosAddress` and `getFirstSeenAt`, each a computation that looks at the two
stores and at the tracker's counters across its awaits. Every look is a step of its own, so other
tasks can run between any two of them. The address comes as the SHA-256 of its script.
-/

namespace UtxoTracker

open Resumption

/-- The confirmed and the mempool store. -/
structure Stores where
  confirmed : LevelUpStore
  mempool : LevelUpStore

/-- The tracker's fields that an address read reports. -/
structure Memory where
  /-- The node's tip as last refreshed. -/
  blockchainInfoLastBlock : Int
  reorgCount : Nat
  mempoolEpoch : Nat
  mempoolReconverged : Bool
  deriving DecidableEq, Repr

structure View where
  stores : Stores
  memory : Memory

abbrev Read := Resumption View

structure AddressConfig where
  coinbaseMaturity : Nat
  maxAddressOutputs : Nat
  deriving DecidableEq, Repr

/-- What a read reports of the moment its rows are of. -/
structure ReadSnapshot where
  committedHeight : Int
  committedHash : Option Hash
  reorgCount : Nat
  mempoolEpoch : Nat
  mempoolReconverged : Bool := false
  deriving DecidableEq, Repr

/-- The committed height, tip hash and counters. -/
def readCommittedSnapshot : Read ReadSnapshot := do
  let committedHeight ← observe fun v => v.stores.confirmed.getLastBlockHeight
  let committedHash ← observe fun v => v.stores.confirmed.getLastBlockHash
  let memory ← observe fun v => v.memory
  return { committedHeight
           committedHash
           reorgCount := memory.reorgCount
           mempoolEpoch := memory.mempoolEpoch }

/-- The snapshot closed with the readiness latch. -/
def ReadSnapshot.close (snapshot : ReadSnapshot) : Read ReadSnapshot := do
  let memory ← observe fun v => v.memory
  return { snapshot with mempoolReconverged := memory.mempoolReconverged }

/-- Satoshis as a coin-denominated decimal string. -/
def satoshiToDecimalString (satoshis : Int) : String :=
  let frac := Nat.repr (satoshis.natAbs % 100000000)
  (if satoshis < 0 then "-" else "") ++ Nat.repr (satoshis.natAbs / 100000000) ++ "." ++
    "".pushn '0' (8 - frac.length) ++ frac

/-! ### `getBalanceInfo` -/

@[ext]
structure BalanceTotals where
  confirmedBalance : Int
  pendingBalance : Int
  totalReceived : Int
  utxosConfirmed : Nat
  utxosPending : Nat
  deriving DecidableEq, Repr

/-- The loop over the confirmed outputs. -/
def balanceOfConfirmed : List OutputRow → BalanceTotals → Read BalanceTotals
  | [], totals => pure totals
  | row :: rest, totals => do
      let mempoolInput ← observe fun v => v.stores.mempool.getInput row.requireFullTxid row.vout
      balanceOfConfirmed rest { totals with
        totalReceived := totals.totalReceived + row.value
        pendingBalance :=
          if mempoolInput.isSome then totals.pendingBalance - row.value else totals.pendingBalance
        confirmedBalance := totals.confirmedBalance + row.value
        utxosConfirmed := totals.utxosConfirmed + 1 }

/-- The loop over the mempool outputs: an outpoint already counted is skipped. -/
def balanceOfMempool (confirmedKeys : List OutPoint) :
    List OutputRow → BalanceTotals → Read BalanceTotals
  | [], totals => pure totals
  | row :: rest, totals =>
      if row.outPoint ∈ confirmedKeys then balanceOfMempool confirmedKeys rest totals
      else do
        let mempoolInput ← observe fun v => v.stores.mempool.getInput row.requireFullTxid row.vout
        balanceOfMempool confirmedKeys rest
          (if mempoolInput.isSome then totals
          else { totals with
            pendingBalance := totals.pendingBalance + row.value
            utxosPending := totals.utxosPending + 1 })

/-- The amounts of `balanceInfoResult`. -/
structure BalanceInfo where
  confirmed : String
  pending : String
  received : String
  utxosConfirmed : Nat
  utxosPending : Nat
  snapshot : ReadSnapshot
  deriving DecidableEq, Repr

def balanceInfoResult (totals : BalanceTotals) (snapshot : ReadSnapshot) : BalanceInfo :=
  { confirmed := satoshiToDecimalString totals.confirmedBalance
    pending := satoshiToDecimalString totals.pendingBalance
    received := satoshiToDecimalString totals.totalReceived
    utxosConfirmed := totals.utxosConfirmed
    utxosPending := totals.utxosPending
    snapshot }

def readBalanceInfo (config : AddressConfig) (script : Hash) :
    Read (Except QueryError BalanceInfo) := do
  let snapshot ← readCommittedSnapshot
  let confirmed ← observe fun v =>
    v.stores.confirmed.getOutputsScriptPubKey script none none (some config.maxAddressOutputs)
  match confirmed with
  | .error e => return .error e
  | .ok confirmedOutputs =>
    let mempool ← observe fun v =>
      v.stores.mempool.getOutputsScriptPubKey script none none (some config.maxAddressOutputs)
    match mempool with
    | .error e => return .error e
    | .ok mempoolOutputs =>
      let totals ← balanceOfConfirmed confirmedOutputs ⟨0, 0, 0, 0, 0⟩
      let totals ← balanceOfMempool (confirmedOutputs.map OutputRow.outPoint) mempoolOutputs totals
      let snapshot ← snapshot.close
      return .ok (balanceInfoResult totals snapshot)

/-! ### `getUtxosAddress` -/

/-- A served output. -/
structure Utxo where
  txid : Hash
  vout : Nat
  value : Nat
  height : Option Int
  coinbase : Bool
  confirmations : Int
  amount : String
  scriptPubKey : String
  deriving DecidableEq, Repr

def Utxo.outPoint (utxo : Utxo) : OutPoint := ⟨utxo.txid, utxo.vout⟩

/-- `addServableConfirmedUtxo`: nothing for an output above the cached tip, or for an immature
coinbase output. -/
def servableConfirmedUtxo (config : AddressConfig) (tip : Int) (scriptPubKeyHex : String)
    (row : OutputRow) : Option Utxo :=
  let confirmations := tip - row.height + 1
  if confirmations < 0 then none
  else if row.coinbase ∧ 0 < config.coinbaseMaturity ∧ confirmations < config.coinbaseMaturity then
    none
  else
    some { txid := row.requireFullTxid
           vout := row.vout
           value := row.value
           height := some row.height
           coinbase := row.coinbase
           confirmations
           amount := satoshiToDecimalString row.value
           scriptPubKey := scriptPubKeyHex }

def mempoolUtxo (scriptPubKeyHex : String) (row : OutputRow) : Utxo :=
  { txid := row.requireFullTxid
    vout := row.vout
    value := row.value
    height := none
    coinbase := row.coinbase
    confirmations := 0
    amount := satoshiToDecimalString row.value
    scriptPubKey := scriptPubKeyHex }

/-- The loop over the confirmed outputs: one that the mempool spends is skipped. -/
def utxosOfConfirmed (config : AddressConfig) (scriptPubKeyHex : String) :
    List OutputRow → List Utxo → Read (List Utxo)
  | [], results => pure results
  | row :: rest, results => do
      let mempoolInput ← observe fun v => v.stores.mempool.getInput row.requireFullTxid row.vout
      if mempoolInput.isSome then utxosOfConfirmed config scriptPubKeyHex rest results
      else do
        let memory ← observe fun v => v.memory
        utxosOfConfirmed config scriptPubKeyHex rest (results ++
          (servableConfirmedUtxo config memory.blockchainInfoLastBlock scriptPubKeyHex row).toList)

/-- `addServableMempoolUtxo`: an outpoint that the page or, when paging, the confirmed store serves
is skipped, and so is one that the mempool spends. -/
def servableMempoolUtxo (confirmedKeys : List OutPoint) (paged : Bool) (scriptPubKeyHex : String)
    (row : OutputRow) : Read (List Utxo) := do
  if row.outPoint ∈ confirmedKeys then return []
  else do
    let confirmedElsewhere ← observe fun v =>
      paged && v.stores.confirmed.hasOutputForTx row.requireFullTxid row.vout
    if confirmedElsewhere then return []
    else do
      let mempoolInput ← observe fun v => v.stores.mempool.getInput row.requireFullTxid row.vout
      return if mempoolInput.isSome then [] else [mempoolUtxo scriptPubKeyHex row]

def utxosOfMempool (confirmedKeys : List OutPoint) (paged : Bool) (scriptPubKeyHex : String) :
    List OutputRow → List Utxo → Read (List Utxo)
  | [], results => pure results
  | row :: rest, results => do
      let served ← servableMempoolUtxo confirmedKeys paged scriptPubKeyHex row
      utxosOfMempool confirmedKeys paged scriptPubKeyHex rest (results ++ served)

/-- The last key scanned, when the page is full: more rows may remain. -/
def nextPageCursor (confirmedOutputs : List OutputRow) (pageLimit : Option Nat) : Option String :=
  match pageLimit, confirmedOutputs.getLast? with
  | some limit, some row =>
      if confirmedOutputs.length = limit then some (outputCursor row.txid row.vout) else none
  | _, _ => none

structure UtxosAnswer where
  results : List Utxo
  nextCursor : Option String
  snapshot : ReadSnapshot
  deriving DecidableEq, Repr

def readUtxosAddress (config : AddressConfig) (script : Hash) (scriptPubKeyHex : String)
    (limit : Option Nat) (after : Option String) : Read (Except QueryError UtxosAnswer) := do
  let pageLimit := limit.filter (0 < ·)
  let snapshot ← readCommittedSnapshot
  let confirmed ← observe fun v =>
    if pageLimit.isSome then v.stores.confirmed.getOutputsScriptPubKey script pageLimit after none
    else v.stores.confirmed.getOutputsScriptPubKey script none none (some config.maxAddressOutputs)
  match confirmed with
  | .error e => return .error e
  | .ok confirmedOutputs =>
    let nextCursor := nextPageCursor confirmedOutputs pageLimit
    -- The mempool rows ride on the first page only.
    let mempool ← observe fun v =>
      if pageLimit = none ∨ after = none then
        v.stores.mempool.getOutputsScriptPubKey script none none (some config.maxAddressOutputs)
      else .ok []
    match mempool with
    | .error e => return .error e
    | .ok mempoolOutputs =>
      let results ← utxosOfConfirmed config scriptPubKeyHex confirmedOutputs []
      let results ← utxosOfMempool (confirmedOutputs.map OutputRow.outPoint) pageLimit.isSome
        scriptPubKeyHex mempoolOutputs results
      let snapshot ← snapshot.close
      return .ok { results, nextCursor, snapshot }

/-! ### `getFirstSeenAt` -/

structure FirstSeenAnswer where
  firstSeen : Option Int
  snapshot : ReadSnapshot
  deriving DecidableEq, Repr

def readFirstSeenAt (script : Hash) : Read FirstSeenAnswer := do
  let snapshot ← readCommittedSnapshot
  let firstSeen ← observe fun v => v.stores.confirmed.getOutputScriptBlock script
  let snapshot ← snapshot.close
  return { firstSeen, snapshot }

end UtxoTracker

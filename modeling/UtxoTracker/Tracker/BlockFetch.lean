import UtxoTracker.Chain.AuxPow
import UtxoTracker.Lib.Streak
/-!
# Fetching the next block

The sync loop's block source: the prefetch queue, filled by batched requests whose one promise every
member waits on, the direct fetch, and the reassembly of a block whose proof of work cannot be cut
out. The node's answers are inputs, a batch's being those its promise settles with.
-/

namespace UtxoTracker

open BlockchainConnector

/-- `PREFETCH_SIZE` -/
def prefetchSize : Nat := 10

/-- `AUXPOW_REASSEMBLE_AFTER` -/
def auxPowReassembleAfter : Nat := 5

/-- A failed fetch. The faults of the strip are the ones tagged `auxPowParseFailure`; theirs names
the block that could not be stripped. -/
inductive FetchError where
  | rpc (error : RpcError)
  | strip (height : Nat) (message : String)
  deriving DecidableEq, Repr

namespace FetchError

def auxPowParseFailure : FetchError → Bool
  | .rpc _ => false
  | .strip _ _ => true

def message : FetchError → String
  | .rpc error => error.message
  | .strip _ message => message

end FetchError

structure FetchedBlock where
  hash : HexString
  hex : HexString
  deriving DecidableEq, Repr

/-- An entry of the prefetch queue, its promise settled. -/
structure PrefetchEntry where
  height : Nat
  promise : Except FetchError FetchedBlock
  deriving DecidableEq, Repr

/-- The chain and the settings that a fetch depends on. -/
structure BlockFetcher (τ : Type) where
  auxPow : Bool
  bitcoinjs : BitcoinJs τ
  maxBlockFetchRetries : Nat
  /-- How many raw transactions a reassembly asks for at a time. -/
  concurrency : Nat

structure FetchState where
  prefetchQueue : List PrefetchEntry
  blockFetchFailureHeight : Option Nat
  blockFetchFailures : Nat
  auxPowParseFailureHeight : Option Nat
  auxPowParseFailures : Nat
  deriving DecidableEq, Repr

/-- `newSyncLoopState` -/
def newFetchState : FetchState :=
  { prefetchQueue := []
    blockFetchFailureHeight := none
    blockFetchFailures := 0
    auxPowParseFailureHeight := none
    auxPowParseFailures := 0 }

/-- What a batch answers for one of its heights. -/
structure BlockReply where
  hash : HexString
  header : HexString
  block : HexString

/-- The answers to a fetch outside the queue. -/
structure DirectReply where
  hash : Except RpcError HexString
  block : Except RpcError HexString
  /-- Where the header and the parts of a reassembly come from. -/
  source : BlockSource

namespace BlockFetcher

variable {τ : Type} (fetcher : BlockFetcher τ)

/-! ### Batches -/

/-- A member of a batch without its AuxPoW section. -/
def stripBatchMember (height : Nat) (reply : BlockReply) : Except FetchError FetchedBlock :=
  match stripAuxPowFromBlockHex fetcher.bitcoinjs reply.header reply.block with
  | .ok hex => .ok ⟨reply.hash, hex⟩
  | .error message =>
      .error (.strip height ("There were problems stripping auxpow from block " ++ toString height
        ++ " (" ++ String.ofList reply.hash ++ ") in batch. " ++ message))

/-- The batch fails as a whole on its first member that cannot be stripped. -/
def getBlocksBatchWithoutAuxPow (heights : List Nat) (reply : Except RpcError (Nat → BlockReply)) :
    Except FetchError (List FetchedBlock) :=
  match reply with
  | .error error => .error (.rpc error)
  | .ok served => heights.mapM fun height => fetcher.stripBatchMember height (served height)

def getBlocksBatch (heights : List Nat) (reply : Except RpcError (Nat → BlockReply)) :
    Except FetchError (List FetchedBlock) :=
  match reply with
  | .error error => .error (.rpc error)
  | .ok served => .ok (heights.map fun height => ⟨(served height).hash, (served height).block⟩)

/-- Each member's promise: its own block, or the failure of the batch. -/
def batchEntries (heights : List Nat) : Except FetchError (List FetchedBlock) → List PrefetchEntry
  | .error error => heights.map fun height => ⟨height, .error error⟩
  | .ok results => List.zipWith (fun height result => ⟨height, .ok result⟩) heights results

/-- The heights after the queue's last entry, up to `PREFETCH_SIZE` entries and never past the tip. -/
def heightsToQueue (queue : List PrefetchEntry) (fromHeight tipHeight : Nat) : List Nat :=
  let next :=
    match queue.getLast? with
    | none => fromHeight
    | some last => last.height + 1
  List.range' next (min (prefetchSize - queue.length) (tipHeight + 1 - next))

def fillPrefetchQueue (s : FetchState) (fromHeight tipHeight : Nat)
    (reply : Except RpcError (Nat → BlockReply)) : FetchState :=
  let heights := heightsToQueue s.prefetchQueue fromHeight tipHeight
  if heights = [] then s
  else
    let batch :=
      if fetcher.auxPow then fetcher.getBlocksBatchWithoutAuxPow heights reply
      else getBlocksBatch heights reply
    { s with prefetchQueue := s.prefetchQueue ++ batchEntries heights batch }

/-! ### One block -/

/-- A call that is not about the block's bytes. -/
def rpc {α : Type} : Except RpcError α → Except FetchError α
  | .ok value => .ok value
  | .error error => .error (.rpc error)

def getBlockWithoutAuxPow (height : Nat) (reply : DirectReply) : Except FetchError HexString := do
  let blockHeaderHex ← rpc reply.source.getBlockHeader
  let blockHex ← rpc reply.block
  match stripAuxPowFromBlockHex fetcher.bitcoinjs blockHeaderHex blockHex with
  | .ok hex => .ok hex
  | .error message =>
      .error (.strip height
        ("There were problems getting a block hex without auxpow. " ++ message))

def fetchBlockHex (height : Nat) (reply : DirectReply) : Except FetchError HexString :=
  if fetcher.auxPow then fetcher.getBlockWithoutAuxPow height reply else rpc reply.block

def fetchBlock (height : Nat) (reply : DirectReply) : Except FetchError FetchedBlock := do
  let hash ← rpc reply.hash
  let hex ← fetcher.fetchBlockHex height reply
  .ok ⟨hash, hex⟩

/-- The block rebuilt from its transactions, whatever its AuxPoW bytes are. -/
def fetchReassembled (reply : DirectReply) : Except FetchError FetchedBlock := do
  let hash ← rpc reply.hash
  let hex ← rpc (getBlockReassembled reply.source fetcher.concurrency)
  .ok ⟨hash, hex⟩

/-! ### Streaks -/

def shouldReassembleBlock (height : Nat) (streakHeight : Option Nat) (streakCount : Nat) : Bool :=
  fetcher.auxPow && streakHeight = some height && auxPowReassembleAfter ≤ streakCount

def noteAuxPowParseFailure (height : Nat) (streakHeight : Option Nat) (streakCount : Nat)
    (error : FetchError) : Streak Nat :=
  if streakHeight ≠ some height then ⟨some height, if error.auxPowParseFailure then 1 else 0⟩
  else if !error.auxPowParseFailure then ⟨streakHeight, streakCount⟩
  else ⟨some height, streakCount + 1⟩

/-- The count of every failure, until it halts the tracker. -/
def noteBlockFetchFailure (height : Nat) (streakHeight : Option Nat) (streakCount : Nat)
    (error : FetchError) : Except String (Streak Nat) :=
  let count := if streakHeight = some height then streakCount + 1 else 1
  if fetcher.maxBlockFetchRetries ≤ count then
    .error ("Block-fetch desync: the node failed to serve block " ++ toString height ++ " after "
      ++ toString count ++ " consecutive attempts. The node is likely pruned past this height or "
      ++ "permanently missing the block. Last error: " ++ error.message ++ ". Recovery: point at a "
      ++ "non-pruned node, or resync from a known-good snapshot.")
  else .ok ⟨some height, count⟩

/-! ### The fetch -/

/-- Where `fetchNextBlock` takes the block from. -/
inductive FetchPath where
  | reassembled
  | prefetched (entry : PrefetchEntry) (rest : List PrefetchEntry)
  | direct

def fetchPath (s : FetchState) (nextBlockHeight : Nat) : FetchPath :=
  if fetcher.shouldReassembleBlock nextBlockHeight s.auxPowParseFailureHeight
      s.auxPowParseFailures then .reassembled
  else
    match s.prefetchQueue with
    | entry :: rest => if entry.height = nextBlockHeight then .prefetched entry rest else .direct
    | [] => .direct

/-- What the awaited call answers. -/
def fetched (nextBlockHeight : Nat) (reply : DirectReply) :
    FetchPath → Except FetchError FetchedBlock
  | .reassembled => fetcher.fetchReassembled reply
  | .prefetched entry _ => entry.promise
  | .direct => fetcher.fetchBlock nextBlockHeight reply

/-- The queue once the block is taken. -/
def queueAfter : FetchPath → List PrefetchEntry
  | .prefetched _ rest => rest
  | _ => []

inductive FetchResult where
  | block (s : FetchState) (fetched : FetchedBlock)
  /-- Both streaks are counted; the pass ends. -/
  | failed (s : FetchState) (error : FetchError)
  /-- The fetch streak halts the tracker. -/
  | desync (message : String)

def fetchNextBlock (s : FetchState) (nextBlockHeight : Nat) (reply : DirectReply) : FetchResult :=
  let path := fetcher.fetchPath s nextBlockHeight
  match fetcher.fetched nextBlockHeight reply path with
  | .ok fetched => .block { newFetchState with prefetchQueue := queueAfter path } fetched
  | .error error =>
      let parse := noteAuxPowParseFailure nextBlockHeight s.auxPowParseFailureHeight
        s.auxPowParseFailures error
      match fetcher.noteBlockFetchFailure nextBlockHeight s.blockFetchFailureHeight
        s.blockFetchFailures error with
      | .error message => .desync message
      | .ok fetch =>
          .failed
            { prefetchQueue := []
              blockFetchFailureHeight := fetch.key
              blockFetchFailures := fetch.count
              auxPowParseFailureHeight := parse.key
              auxPowParseFailures := parse.count }
            error

end BlockFetcher

end UtxoTracker

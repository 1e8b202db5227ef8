import Mathlib.Data.List.Sort
import Mathlib.Logic.Function.Basic
import UtxoTracker.Lib.Transition
import UtxoTracker.Store.Records
/-!
# Mempool passes and the readiness latch

`updateMempool` and the post-reorg resync as calls that run from await to await, among the sync
loop's own moves: the tip poll, the walk and its rollback commits, the flush that takes
`mempoolBusy`, the stop, the halt and the relaunch. What the records are is left out; a commit is
noted with the store it went to and the txids it staged.
-/

namespace UtxoTracker

/-- `MEMPOOL_BATCH_SIZE` -/
def mempoolBatchSize : Nat := 1000

/-- `MEMPOOL_MAX_TX_FETCH_RETRIES` -/
def mempoolMaxTxFetchRetries : Nat := 5

/-- How long the resync waits for a pass in flight, in tenths of a second. -/
def resyncMaxTries : Nat := 600

/-- `insertSortedTxids`: each txid of the listing at its sorted position, unless it is there. -/
def insertSortedTxids (rawMempool rawMempoolUnordered : List Hash) : List Hash :=
  rawMempoolUnordered.foldl
    (fun sorted txid => if txid ∈ sorted then sorted else sorted.orderedInsert (· ≤ ·) txid)
    rawMempool

/-- How many rollbacks have committed, and how many runs of `start` have begun. Each run makes a
mempool store, so the second number names the one in use. -/
structure Marks where
  rollbacks : Nat
  starts : Nat
  deriving DecidableEq, Repr

/-- A commit of a pass: the store that `this.mempoolDb` was, and the txids fetched for it. -/
structure MempoolCommit where
  store : Nat
  txids : List Hash
  deriving DecidableEq, Repr

/-- A pass with its listing in hand. -/
structure Pass where
  /-- When the node took the listing. -/
  takenAt : Marks
  rawMempool : List Hash
  i : Nat
  consecutiveTxFetchFailures : Nat
  /-- Its commits so far, the prune's first. -/
  commits : List MempoolCommit
  deriving DecidableEq, Repr

/-- Where one call stands. -/
inductive PassStage where
  | notCalled
  /-- The resync awaits the end of a pass in flight. -/
  | resyncing (tries : Nat)
  /-- `getRawMempool` has been asked for. -/
  | listing
  /-- The node has taken its listing; the reply is on its way. -/
  | listed (pass : Pass)
  | readingTips (pass : Pass)
  | pruning (pass : Pass)
  /-- Awaits `getRawTransactions`, or sleeps between two batches. -/
  | fetching (pass : Pass)
  | staging (pass : Pass)
  | ended
  deriving DecidableEq, Repr

/-- The listing a call has in hand. -/
def PassStage.inHand : PassStage → Option Pass
  | listed pass | readingTips pass | pruning pass | fetching pass | staging pass => some pass
  | _ => none

structure Readiness (τ : Type*) where
  marks : Marks
  synced : Bool
  mempoolReconverged : Bool
  mempoolBusy : Bool
  mempoolInterval : Bool
  /-- The pass that raised `mempoolReconverged` last. -/
  raisedBy : Option Pass
  /-- A flush holds `mempoolBusy`. -/
  flushing : Bool
  call : τ → PassStage

namespace Readiness

variable {τ : Type*} [DecidableEq τ] (s : Readiness τ) (t : τ) (pass : Pass)

def setCall (stage : PassStage) : Readiness τ := { s with call := Function.update s.call t stage }

/-! ### A pass -/

/-- `updateMempool`, up to its first await. -/
def updateMempool : Readiness τ :=
  if s.mempoolBusy then s.setCall t .ended
  else { s with mempoolBusy := true }.setCall t .listing

/-- The `finally`. -/
def endPass : Readiness τ := { s with mempoolBusy := false }.setCall t .ended

/-- `withdrawMempoolReadiness` -/
def withdrawMempoolReadiness : Readiness τ := { s with mempoolReconverged := false }.endPass t

/-- `markMempoolReconverged` -/
def markMempoolReconverged : Readiness τ :=
  { s with mempoolReconverged := true, raisedBy := some pass }.endPass t

/-- The head of the batch loop. -/
def batchLoop : Readiness τ :=
  if pass.i < pass.rawMempool.length then s.setCall t (.fetching pass)
  else s.markMempoolReconverged t pass

/-- The node takes its listing. -/
def takeListing (listing : List Hash) : Readiness τ :=
  s.setCall t (.listed
    { takenAt := s.marks
      rawMempool := insertSortedTxids [] listing
      i := 0
      consecutiveTxFetchFailures := 0
      commits := [] })

/-- The end of `pruneMempoolStore`: what is stored leaves the list, and readiness is withdrawn while
any is left. -/
def pruned (stored : List Hash) : Readiness τ :=
  let rawMempool := pass.rawMempool.filter (· ∉ stored)
  let s := if rawMempool = [] then s else { s with mempoolReconverged := false }
  s.batchLoop t { pass with rawMempool, commits := [⟨s.marks.starts, []⟩] }

/-- `noteTxFetchFailure`: try again, or give the pass up. -/
def fetchFailed : Readiness τ :=
  let failures := pass.consecutiveTxFetchFailures + 1
  if mempoolMaxTxFetchRetries ≤ failures then s.withdrawMempoolReadiness t
  else s.setCall t (.fetching { pass with consecutiveTxFetchFailures := failures })

/-- The end of `stageMempoolBatch`, and the next round. -/
def batchStaged : Readiness τ :=
  let chunk := (pass.rawMempool.drop pass.i).take mempoolBatchSize
  s.batchLoop t
    { pass with
      i := pass.i + mempoolBatchSize
      commits := pass.commits ++ [⟨s.marks.starts, chunk⟩] }

/-! ### The resync -/

/-- The wait of the resync's pass, at its `tries`-th look. -/
def awaitResync (tries : Nat) : Readiness τ :=
  if s.mempoolBusy && tries < resyncMaxTries then s.setCall t (.resyncing tries)
  else { s with mempoolReconverged := false }.updateMempool t

def resyncMempoolAfterReorg : Readiness τ :=
  if s.mempoolInterval then { s with mempoolReconverged := false }.awaitResync t 0 else s

/-! ### The sync loop -/

/-- `pollAtChainTip` at its end: synced, and the poller armed once. -/
def pollAtChainTip : Readiness τ :=
  let s := { s with synced := true }
  if s.mempoolInterval then s else { s.updateMempool t with mempoolInterval := true }

/-- Both latches down and the poller cleared: too far behind, the normal stop, and the halt. -/
def standDown : Readiness τ :=
  { s with synced := false, mempoolReconverged := false, mempoolInterval := false }

/-- `start` makes its stores. -/
def launch : Readiness τ := { s with marks := { s.marks with starts := s.marks.starts + 1 } }

/-- The latches as `newSyncLoopState` leaves them. -/
def resetLatches : Readiness τ := { s with synced := false, mempoolReconverged := false }

def commitRollback : Readiness τ :=
  { s with marks := { s.marks with rollbacks := s.marks.rollbacks + 1 } }

/-- The tracker before its first `start`. -/
def initial : Readiness τ :=
  { marks := { rollbacks := 0, starts := 0 }
    synced := false
    mempoolReconverged := false
    mempoolBusy := false
    mempoolInterval := false
    raisedBy := none
    flushing := false
    call := fun _ => .notCalled }

end Readiness

/-- What runs up to its next await. -/
inductive ReadinessEvent (τ : Type*) where
  /-- A tick of the poller. -/
  | tick (t : τ)
  | takeListing (t : τ) (listing : List Hash)
  | listingFailed (t : τ)
  | received (t : τ)
  | tipsRead (t : τ)
  | pruned (t : τ) (stored : List Hash)
  | fetched (t : τ)
  | fetchFailed (t : τ)
  | batchStaged (t : τ)
  /-- A fault of the prune or of a batch. -/
  | passFailed (t : τ)
  | resync (t : τ)
  | resyncLook (t : τ)
  | pollAtChainTip (t : τ)
  /-- The tip is not parseable yet. -/
  | tipRefused
  /-- A walk begins. -/
  | unsynced
  | commitRollback
  /-- The loop fell behind, stopped or halted. -/
  | standDown
  | flushBegins
  | flushEnds
  | stopParsing
  /-- `stopParsing` timed out. -/
  | stopTimedOut
  | launch
  /-- `newSyncLoopState` -/
  | loopState
  deriving DecidableEq, Repr

variable {τ : Type*} [DecidableEq τ]

inductive ReadinessStep : Readiness τ → ReadinessEvent τ → Readiness τ → Prop where
  | tick {s : Readiness τ} {t : τ} (hstage : s.call t = .notCalled)
      (harmed : s.mempoolInterval = true) : ReadinessStep s (.tick t) (s.updateMempool t)
  | takeListing {s : Readiness τ} {t : τ} {listing : List Hash} (hstage : s.call t = .listing) :
      ReadinessStep s (.takeListing t listing) (s.takeListing t listing)
  /-- No listing, or none that arrives: the flag falls and readiness stays as it is. -/
  | listingFailed {s : Readiness τ} {t : τ}
      (hstage : s.call t = .listing ∨ ∃ pass, s.call t = .listed pass) :
      ReadinessStep s (.listingFailed t) (s.endPass t)
  | received {s : Readiness τ} {t : τ} {pass : Pass} (hstage : s.call t = .listed pass) :
      ReadinessStep s (.received t) (s.setCall t (.readingTips pass))
  | tipsRead {s : Readiness τ} {t : τ} {pass : Pass} (hstage : s.call t = .readingTips pass) :
      ReadinessStep s (.tipsRead t) (s.setCall t (.pruning pass))
  | pruned {s : Readiness τ} {t : τ} {pass : Pass} {stored : List Hash}
      (hstage : s.call t = .pruning pass) :
      ReadinessStep s (.pruned t stored) (s.pruned t pass stored)
  | fetched {s : Readiness τ} {t : τ} {pass : Pass} (hstage : s.call t = .fetching pass) :
      ReadinessStep s (.fetched t)
        (s.setCall t (.staging { pass with consecutiveTxFetchFailures := 0 }))
  | fetchFailed {s : Readiness τ} {t : τ} {pass : Pass} (hstage : s.call t = .fetching pass) :
      ReadinessStep s (.fetchFailed t) (s.fetchFailed t pass)
  | batchStaged {s : Readiness τ} {t : τ} {pass : Pass} (hstage : s.call t = .staging pass) :
      ReadinessStep s (.batchStaged t) (s.batchStaged t pass)
  | passFailed {s : Readiness τ} {t : τ} {pass : Pass}
      (hstage : s.call t = .pruning pass ∨ s.call t = .staging pass) :
      ReadinessStep s (.passFailed t) (s.withdrawMempoolReadiness t)
  | resync {s : Readiness τ} {t : τ} (hstage : s.call t = .notCalled) :
      ReadinessStep s (.resync t) (s.resyncMempoolAfterReorg t)
  | resyncLook {s : Readiness τ} {t : τ} {tries : Nat} (hstage : s.call t = .resyncing tries) :
      ReadinessStep s (.resyncLook t) (s.awaitResync t (tries + 1))
  | pollAtChainTip {s : Readiness τ} {t : τ} (hstage : s.call t = .notCalled) :
      ReadinessStep s (.pollAtChainTip t) (s.pollAtChainTip t)
  | tipRefused {s : Readiness τ} : ReadinessStep s .tipRefused s.resetLatches
  | unsynced {s : Readiness τ} : ReadinessStep s .unsynced { s with synced := false }
  | commitRollback {s : Readiness τ} : ReadinessStep s .commitRollback s.commitRollback
  | standDown {s : Readiness τ} : ReadinessStep s .standDown s.standDown
  | flushBegins {s : Readiness τ} (hfree : s.mempoolBusy = false) :
      ReadinessStep s .flushBegins { s with mempoolBusy := true, flushing := true }
  | flushEnds {s : Readiness τ} (hflushing : s.flushing = true) :
      ReadinessStep s .flushEnds { s with mempoolBusy := false, flushing := false }
  | stopParsing {s : Readiness τ} :
      ReadinessStep s .stopParsing { s with mempoolInterval := false }
  | stopTimedOut {s : Readiness τ} :
      ReadinessStep s .stopTimedOut { s with mempoolInterval := true }
  | launch {s : Readiness τ} : ReadinessStep s .launch s.launch
  | loopState {s : Readiness τ} : ReadinessStep s .loopState s.resetLatches

/-- The states of the runs whose steps all meet `allowed`. -/
abbrev ReadinessReachable (allowed : Readiness τ → ReadinessEvent τ → Prop) (s : Readiness τ) :
    Prop :=
  Transition.Reachable (· = Readiness.initial)
    (fun s s' => ∃ event, allowed s event ∧ ReadinessStep s event s') s

/-! ### What readiness promises -/

/-- The pass's listing was taken after the last rollback commit and after the last `start`, and its
batches, one after another its whole list, went to the store in use. -/
structure Pass.Current (pass : Pass) (marks : Marks) : Prop where
  rollbacks : pass.takenAt.rollbacks = marks.rollbacks
  starts : pass.takenAt.starts = marks.starts
  stores : ∀ commit ∈ pass.commits, commit.store = marks.starts
  complete : pass.commits.flatMap MempoolCommit.txids = pass.rawMempool

/-- Readiness is up by the work of a current pass. -/
def Readiness.Earned (s : Readiness τ) : Prop :=
  s.mempoolReconverged = true → ∃ pass, s.raisedBy = some pass ∧ pass.Current s.marks

/-- A rollback commit and a `start` find readiness down and no listing in hand. -/
def Unhurried (s : Readiness τ) : ReadinessEvent τ → Prop
  | .commitRollback | .launch => s.mempoolReconverged = false ∧ ∀ t, (s.call t).inHand = none
  | _ => True

end UtxoTracker

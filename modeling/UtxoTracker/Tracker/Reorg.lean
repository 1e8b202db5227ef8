import UtxoTracker.Tracker.Window
/-!
# The reorg walk

`verifyReorg` compares the committed tip with the node's block at that height and rolls the tip back
until they agree. Everything the walk hears from outside is an input: the node's hash, its tip
readings after a failed fetch, and whether a commit succeeds.
-/

namespace UtxoTracker

open KeyedStore

/-! ### The node's tip -/

/-- `TIP_SETTLE_STABLE_READS` -/
def tipSettleStableReads : Nat := 5

/-- `TIP_SETTLE_MAX_READS` -/
def tipSettleMaxReads : Nat := 10

/-- The loop of `settleWalkTip`: `reads` re-reads are left, and `previous` was read `stableReads`
more times in a row. A reading that is missing or unusable ends it. -/
def settleWalkTipLoop : Nat → Int → Nat → List (Option Int) → Option Int
  | 0, _, _, _ => none
  | reads + 1, previous, stableReads, readings =>
      match readings with
      | some tip :: rest =>
          if tip = previous then
            if stableReads + 1 = tipSettleStableReads then some tip
            else settleWalkTipLoop reads previous (stableReads + 1) rest
          else settleWalkTipLoop reads tip 0 rest
      | _ => none

/-- An unchanged tip for the full settle window, or `none`. -/
def settleWalkTip (first : Int) (readings : List (Option Int)) : Option Int :=
  settleWalkTipLoop tipSettleMaxReads first 0 readings

/-- The walk's tip after a failed hash fetch. `readings` are the answers of `readWalkTip`: a higher
tip is taken at once, a lower or first one only once it has settled. -/
def refreshWalkTip (currentTip : Option Int) (readings : List (Option Int)) : Option Int :=
  match readings with
  | some tip :: rest =>
      let mustSettle :=
        match currentTip with
        | none => true
        | some current => decide (tip < current)
      if mustSettle then
        match settleWalkTip tip rest with
        | none => currentTip
        | some next => some next
      else some tip
  | _ => currentTip

/-- What one round of the walk hears. -/
structure NodeAnswers where
  /-- `getBlockHash` at the committed height; `none` when the fetch failed. -/
  blockHash : Option Hash
  /-- The tip readings after a failed fetch; `none` for an unusable one. -/
  tips : List (Option Int)
  /-- Whether the batch of this round reaches the disk. What the database says of a failure is left
  out of the error. -/
  commits : Bool
  deriving DecidableEq, Repr

namespace Tracker

/-! ### The budget -/

/-- `rollbackBudget`: fixed at entry. -/
structure UndoWindow where
  windowAtEntry : Nat
  budget : Nat
  watermarkAtEntry : Nat
  heldBefore : Nat
  spentBeforeEntry : Nat
  spentByEarlierPassesThisProcess : Nat
  deriving DecidableEq, Repr

def rollbackBudget (t : Tracker) : UndoWindow :=
  let windowAtEntry := t.lastBlocks.length
  let watermarkAtEntry := min t.undoWindowWatermark t.undoBlocks
  let heldBefore := if 0 < watermarkAtEntry then watermarkAtEntry else t.undoBlocks
  let spentBeforeEntry := if 0 < windowAtEntry then heldBefore - windowAtEntry else 0
  { windowAtEntry
    budget := if 0 < windowAtEntry then min windowAtEntry t.undoBlocks else 0
    watermarkAtEntry
    heldBefore
    spentBeforeEntry
    spentByEarlierPassesThisProcess := min spentBeforeEntry t.reorgRollbacksThisProcess }

/-- The walk's own state. -/
structure Walk where
  tip : Option Int
  /-- Height and hash of each block deleted by this pass, oldest first. -/
  blocksDeleted : List (Int × Hash)
  retryCount : Nat
  undoWindow : UndoWindow
  deriving DecidableEq, Repr

def startWalk (t : Tracker) (nodeTipHeight : Option Int) : Walk :=
  { tip := nodeTipHeight
    blocksDeleted := []
    retryCount := 0
    undoWindow := t.rollbackBudget }

/-! ### Refusals -/

/-- How many blocks this pass and its predecessors rolled back, as the refusal states it. -/
def rolledBackReport (w : UndoWindow) (undoBlocks : Nat) (lastBlockIndex : Int)
    (deletedThisPass : Nat) : String :=
  if w.windowAtEntry = 0 ∧ 0 < w.watermarkAtEntry then
    "The persisted undo window is EMPTY at entry: a previous process already rolled back all "
      ++ toString w.heldBefore ++ " blocks this store held (of a nominal UNDO_BLOCKS="
      ++ toString undoBlocks ++ " window) before this restart, and the chain still diverges at "
      ++ "height " ++ toString lastBlockIndex ++ ", so the fork is at least "
      ++ toString (w.heldBefore + 1) ++ " blocks deep; "
  else if w.windowAtEntry = 0 then
    "The persisted undo window is EMPTY at entry: a previous process already rolled back every "
      ++ "block this store held (up to the nominal UNDO_BLOCKS=" ++ toString undoBlocks
      ++ "; this store predates the undo-window watermark, so the exact count is unknown) before "
      ++ "this restart, and the chain still diverges at height " ++ toString lastBlockIndex
      ++ ", so the fork is deeper than the window; "
  else if 0 < w.spentBeforeEntry then
    let fromPriorProcess := w.spentBeforeEntry - w.spentByEarlierPassesThisProcess
    let fromThisProcess := w.spentBeforeEntry - fromPriorProcess
    let origin :=
      if fromPriorProcess = 0 then
        toString fromThisProcess ++ " spent by earlier passes in this process"
      else if fromThisProcess = 0 then
        toString fromPriorProcess ++ " a previous process spent before this restart"
      else
        toString fromThisProcess ++ " spent by earlier passes in this process and "
          ++ toString fromPriorProcess ++ " a previous process spent before this restart"
    "Already rolled back " ++ toString deletedThisPass ++ " blocks in this pass, on top of "
      ++ origin ++ " (" ++ toString (w.spentBeforeEntry + deletedThisPass) ++ " of a "
      ++ toString undoBlocks ++ "-block window, now exhausted); "
  else "Already rolled back " ++ toString deletedThisPass ++ " blocks; "

def reorgExceedsWindowMessage (w : UndoWindow) (undoBlocks : Nat) (lastBlockIndex : Int)
    (deletedThisPass : Nat) : String :=
  "verifyReorg: reorg depth exceeds the recovery window (UNDO_BLOCKS=" ++ toString undoBlocks
    ++ "). " ++ rolledBackReport w undoBlocks lastBlockIndex deletedThisPass
    ++ "spent-output recovery records for block height " ++ toString lastBlockIndex
    ++ " and below have already been purged, so continuing would silently leave the UTXO index "
    ++ "under-counted. Aborting. Recovery: this index cannot be walked back onto the node's chain "
    ++ "and has to be rebuilt. Under xchain-node run `xchain-node reset xchain-utxo-tracker <coin> "
    ++ "<network>`, which drops the volume and takes the bulk-sync path; standalone, stop the "
    ++ "tracker, empty its data directory and restart it. Restoring the same bootstrap again lands "
    ++ "back here if its tip is the drifted one."

/-- `aboveTipEmptyWindowMessage` -/
def aboveTipEmptyWindowMessage (undoBlocks : Nat) (nodeTipHeight aboveTip lastBlockIndex : Int) :
    String :=
  "verifyReorg: the node's tip (" ++ toString nodeTipHeight ++ ") is " ++ toString aboveTip
    ++ " blocks below the committed tip (" ++ toString lastBlockIndex ++ "), and the undo window is "
    ++ "EMPTY at entry (0 of UNDO_BLOCKS=" ++ toString undoBlocks ++ " available): not even one "
    ++ "block can be walked back. Refusing before any rollback; nothing has been deleted. If the "
    ++ "node is catching up, syncing resumes once it passes " ++ toString lastBlockIndex
    ++ " on this chain; if its chain diverges at or below " ++ toString lastBlockIndex
    ++ ", this index has to be rebuilt, and the depth guard says so as soon as the node reaches "
    ++ "this height."

/-- The refusal of an above-tip walk that a window is left for. -/
def aboveTipPastBudgetMessage (undoBlocks budget blocksDeleted : Nat)
    (nodeTipHeight aboveTip lastBlockIndex : Int) : String :=
  "verifyReorg: the node's tip (" ++ toString nodeTipHeight ++ ") is " ++ toString aboveTip
    ++ " blocks below the committed tip (" ++ toString lastBlockIndex ++ "), which"
    ++ (if 0 < blocksDeleted then
        " with " ++ toString blocksDeleted ++ " block(s) already rolled back" else "")
    ++ " exceeds the recovery window (" ++ toString budget ++ " of UNDO_BLOCKS="
    ++ toString undoBlocks ++ " available). Refusing before any further rollback: nothing has been "
    ++ "walked back past the window, the index is intact and no rebuild is needed. Either the node "
    ++ "is still catching up (wait for it to pass " ++ toString lastBlockIndex ++ ") or it was "
    ++ "rolled back below this index's tip (operator action)."

/-- `refuseAboveTipWalkPastBudget` -/
def refuseAboveTipWalkPastBudget (t : Tracker) (w : Walk) (aboveNodeTip : Bool)
    (lastBlockIndex : Int) : Except ReorgError Unit :=
  let aboveTip := lastBlockIndex - w.tip.getD 0
  if aboveNodeTip ∧ (w.undoWindow.budget : Int) < w.blocksDeleted.length + aboveTip then
    .error (.tipBelowCommittedTip
      (if w.undoWindow.windowAtEntry = 0 then
        aboveTipEmptyWindowMessage t.undoBlocks (w.tip.getD 0) aboveTip lastBlockIndex
      else
        aboveTipPastBudgetMessage t.undoBlocks w.undoWindow.budget w.blocksDeleted.length
          (w.tip.getD 0) aboveTip lastBlockIndex))
  else .ok ()

/-- `refuseRollbackPastWindow` -/
def refuseRollbackPastWindow (t : Tracker) (w : Walk) (lastBlockIndex : Int) :
    Except ReorgError Unit :=
  if w.undoWindow.windowAtEntry = 0 ∨ w.undoWindow.budget ≤ w.blocksDeleted.length then
    .error (.unrecoverable
      (reorgExceedsWindowMessage w.undoWindow t.undoBlocks lastBlockIndex w.blocksDeleted.length))
  else .ok ()

/-! ### Pointer repair -/

/-- `commitLastBlockPointerRepair`, in a batch of its own. -/
def commitLastBlockPointerRepair (t : Tracker) (hash : Hash) (height : Int) :
    Except String Tracker := do
  let store ←
    ((t.db.beginTransaction.setLastBlockHash hash).setLastBlockHeight height).endTransaction true
  .ok { t with db := store }

/-- `repairLastBlockPointerFromScan`: point the tip at the highest stored block. -/
def repairLastBlockPointerFromScan (t : Tracker) (lastBlockIndex : Int)
    (lastBlock : Option BlockRecord) (commits : Bool) : Except ReorgError Tracker :=
  match t.db.getLastBlock with
  | none =>
      .error (.other ("verifyReorg: cannot repair the last-block pointer: the block index "
        ++ "(B-prefix) is empty while a last-block pointer is set. The DB is corrupt and cannot "
        ++ "self-recover. Recovery: full resync from a known-good snapshot."))
  | some (hash, found) =>
      match lastBlock.filter fun block => found.h ≠ block.h with
      | some block =>
          .error (.other ("There are inconsistents in a block height. It should be "
            ++ toString lastBlockIndex ++ " but " ++ toString block.h ++ " was found"))
      | none =>
          if commits then
            match t.commitLastBlockPointerRepair hash found.h with
            | .ok t => .ok t
            | .error message => .error (.other message)
          else .error (.other (LevelUpStore.batchFailure ""))

/-! ### Rolling one block back -/

/-- The staged part of `rollBackTipBlock`: scripts, spent outputs, created outputs, the block with
its transactions, the window entry, the tip pointer. -/
def stageRollback (t : Tracker) (lastBlockHash : Hash) (lastBlock : BlockRecord) :
    Tracker × Except ReorgError Unit :=
  let store := t.db.beginTransaction
  let store := store.removeOutputScriptsInBlock lastBlockHash
  let store := store.processDeletedOutputs lastBlockHash true
  let store := store.removeCreatedOutputsInBlock lastBlockHash
  let store := store.deleteBlock lastBlockHash
  match { t with db := store }.removeFromLastBlocks lastBlockHash with
  | (t, .error error) => (t, .error error)
  | (t, .ok ()) =>
      ({ t with
        db := (t.db.setLastBlockHash lastBlock.ph).setLastBlockHeight (lastBlock.h - 1) }, .ok ())

/-- Whether the tip was rolled back; a failed attempt is undone and reported as `false` until the
tenth. -/
def rollBackTipBlock (t : Tracker) (lastBlockHash : Hash) (lastBlock : BlockRecord)
    (retryCount : Nat) (commits : Bool) : Tracker × Except ReorgError Bool :=
  let (t, staged) := t.stageRollback lastBlockHash lastBlock
  let committed : Except ReorgError LevelUpStore :=
    match staged with
    | .error error => .error error
    | .ok () =>
        if commits then
          match t.db.endTransaction true with
          | .ok store => .ok store
          | .error message => .error (.other message)
        else .error (.other (LevelUpStore.batchFailure ""))
  match committed with
  | .ok store => ({ t with db := store }, .ok true)
  | .error (.unrecoverable message) =>
      ({ t with db := t.db.discardTransaction }, .error (.unrecoverable message))
  | .error _ =>
      -- The discarded batch kept the block's `N` record, so the window is read back from disk.
      let store := t.db.discardTransaction
      let t := { t with db := store, lastBlocks := loadLastBlocksSortedByHeight store }
      if 10 ≤ retryCount + 1 then
        (t, .error (.other "verifyReorg: deleteBlockByIndex failed after 10 attempts, aborting"))
      else (t, .ok false)

/-! ### The walk -/

inductive WalkResult where
  /-- Round again. -/
  | next (t : Tracker) (w : Walk)
  | returned (t : Tracker) (w : Walk)
  | threw (t : Tracker) (w : Walk) (error : ReorgError)

/-- `recordReorg` -/
def recordReorg (t : Tracker) (w : Walk) : Tracker :=
  if w.blocksDeleted = [] then t
  else { t with reorgCount := t.reorgCount + 1, lastReorgDepth := w.blocksDeleted.length }

/-- `countRefusedWalk`: a walk refused after `walkedBack` deletions is a reorg too. -/
def countRefusedWalk (t : Tracker) (walkedBack : Nat) : Tracker :=
  if walkedBack = 0 then t
  else { t with reorgCount := t.reorgCount + 1, lastReorgDepth := walkedBack }

/-- The rollback arm of a round. -/
def rollBackRound (t : Tracker) (w : Walk) (answers : NodeAnswers) (lastBlockIndex : Int)
    (lastBlockHash : Hash) (lastBlock : BlockRecord) : WalkResult :=
  match t.refuseRollbackPastWindow w lastBlockIndex with
  | .error error => .threw t w error
  | .ok () =>
      match t.rollBackTipBlock lastBlockHash lastBlock w.retryCount answers.commits with
      | (t, .error error) => .threw t w error
      | (t, .ok false) => .next t { w with retryCount := w.retryCount + 1 }
      | (t, .ok true) =>
          .next { t with reorgRollbacksThisProcess := t.reorgRollbacksThisProcess + 1 }
            { w with
              retryCount := 0
              blocksDeleted := w.blocksDeleted ++ [(lastBlockIndex, lastBlockHash)] }

/-- One round of `verifyReorg`'s loop. -/
def verifyReorgRound (t : Tracker) (w : Walk) (answers : NodeAnswers) : WalkResult :=
  let lastBlockIndex := t.db.getLastBlockHeight
  match t.db.getLastBlockHash with
  | none => .threw t w (.other "Cannot read properties of null (reading 'length')")
  | some lastBlockHash =>
      let lastBlock := t.db.getBlock lastBlockHash
      match lastBlock.filter fun block => block.h = lastBlockIndex with
      | none =>
          match t.repairLastBlockPointerFromScan lastBlockIndex lastBlock answers.commits with
          | .error error => .threw t w error
          | .ok t => .next t w
      | some block =>
          let aboveNodeTip :=
            match w.tip with
            | none => false
            | some tip => decide (tip < lastBlockIndex)
          match t.refuseAboveTipWalkPastBudget w aboveNodeTip lastBlockIndex with
          | .error error => .threw t w error
          | .ok () =>
              if aboveNodeTip then
                t.rollBackRound w answers lastBlockIndex lastBlockHash block
              else
                match answers.blockHash with
                | none => .next t { w with tip := refreshWalkTip w.tip answers.tips }
                | some blockHashFromNode =>
                    if lastBlockHash ≠ blockHashFromNode then
                      t.rollBackRound w answers lastBlockIndex lastBlockHash block
                    else .returned (t.recordReorg w) w

/-- The walk over a sequence of answers. It stops in `next` when the answers run out. -/
def walkFrom (t : Tracker) (w : Walk) : List NodeAnswers → WalkResult
  | [] => .next t w
  | answers :: rest =>
      match t.verifyReorgRound w answers with
      | .next t w => walkFrom t w rest
      | done => done

def verifyReorg (t : Tracker) (nodeTipHeight : Option Int) (answers : List NodeAnswers) :
    WalkResult :=
  t.walkFrom (t.startWalk nodeTipHeight) answers

end Tracker

end UtxoTracker

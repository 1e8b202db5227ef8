import UtxoTracker.Tracker.Reorg
/-!
# A node tip below ours

The sync loop's reading of the node's tip, its wait for a lower tip to settle, and the recovery that
rolls the committed chain back onto the node's. Every `getblockchaininfo` answer is an input, `none`
for a failed call.
-/

namespace UtxoTracker

inductive ConsensusNetwork where
  | mainnet
  | testnet
  | regtest
  deriving DecidableEq, Repr

/-- The fields that the tracker reads of a `getblockchaininfo` answer; each may be absent, and an
absent `initialblockdownload` counts as false. -/
structure BlockchainInfo where
  blocks : Option Int
  verificationprogress : Option Rat
  initialblockdownload : Bool
  deriving DecidableEq, Repr

/-- `MIN_VERIFICATION_PROGRESS_TO_PARSE` -/
def minVerificationProgressToParse : Rat := 99 / 100

/-- An absent progress is usable. -/
def nodeTipIsParseable (info : BlockchainInfo) (consensusNetwork : ConsensusNetwork) : Bool :=
  consensusNetwork = .regtest ||
    !(info.verificationprogress.any fun progress => progress < minVerificationProgressToParse)

def nodeStillCatchingUp (info : BlockchainInfo) : Bool := info.initialblockdownload

variable (network : ConsensusNetwork)

/-- One usable tip reading of the walk. -/
def readWalkTip (reply : Option BlockchainInfo) : Option Int :=
  match reply with
  | none => none
  | some info =>
      match info.blocks with
      | none => none
      | some tip =>
          if !nodeTipIsParseable info network || nodeStillCatchingUp info then none else some tip

/-! ### The sync loop's state -/

/-- `nodeCatchingUp`, without its clock. -/
structure CatchUpWait where
  nodeHeight : Option Int
  storedHeight : Int
  deriving DecidableEq, Repr

/-- The tracker with what the sync loop keeps about the node. -/
structure SyncLoop where
  tracker : Tracker
  lastBlockchainInfo : Option BlockchainInfo
  latestKnownChainTip : Option Int
  blockchainInfoLastBlock : Option Int
  synced : Bool
  mempoolReconverged : Bool
  nodeCatchingUp : Option CatchUpWait
  nodeSyncedProblem : Bool
  nodeCatchingUpProblem : Bool
  tipBelowCommittedTipRefused : Bool

namespace SyncLoop

variable (s : SyncLoop)

/-! ### Settling a lower tip -/

/-- The loop of `settleNodeTipBelow`. Unlike the walk's it takes an answer without a height for a
reading. -/
def settleNodeTipBelowLoop :
    Nat → Option Int → Nat → List (Option BlockchainInfo) → Option BlockchainInfo
  | 0, _, _, _ => none
  | reads + 1, previous, stableReads, replies =>
      match replies with
      | some info :: rest =>
          if !nodeTipIsParseable info network || nodeStillCatchingUp info then none
          else if info.blocks = previous then
            if stableReads + 1 = tipSettleStableReads then some info
            else settleNodeTipBelowLoop reads previous (stableReads + 1) rest
          else settleNodeTipBelowLoop reads info.blocks 0 rest
      | _ => none

/-- Whether the tip settled below `ourHeight`; the settled answer replaces the first one. -/
def settleNodeTipBelow (ourHeight : Int) (replies : List (Option BlockchainInfo)) :
    SyncLoop × Bool :=
  match settleNodeTipBelowLoop network tipSettleMaxReads s.blockchainInfoLastBlock 0 replies with
  | none => (s, false)
  | some info =>
      ({ s with
        lastBlockchainInfo := some info
        latestKnownChainTip := info.blocks
        blockchainInfoLastBlock := info.blocks },
       info.blocks.any fun tip => tip < ourHeight)

/-! ### Recovery -/

def waitOnCatchingUpNode : SyncLoop :=
  { s with
    nodeCatchingUpProblem := true
    nodeCatchingUp := some
      { nodeHeight := s.blockchainInfoLastBlock
        storedHeight := s.tracker.lastProcessedBlockIndex } }

/-- How far `recoverFromTipBelowOurs` comes before it turns on the store. -/
inductive Recovery where
  /-- It waits, or ends the pass on an unsettled tip. -/
  | ended (s : SyncLoop)
  /-- The node's tip settled; the open batch is discarded. -/
  | settled (s : SyncLoop)

def settleForRecovery (replies : List (Option BlockchainInfo)) : Recovery :=
  let s := { s with synced := false }
  if s.lastBlockchainInfo.any nodeStillCatchingUp then .ended s.waitOnCatchingUpNode
  else
    let s :=
      if s.nodeCatchingUpProblem then
        { s with nodeCatchingUpProblem := false, nodeCatchingUp := none }
      else s
    if s.tipBelowCommittedTipRefused then .ended s
    else
      match s.settleNodeTipBelow network s.tracker.lastProcessedBlockIndex replies with
      | (s, false) => .ended s
      | (s, true) =>
          .settled { s with
            tracker := { s.tracker.discardInflightBatchForReorg with blocksQuantity := 0 } }

/-- The walk that `rollBackToNodeTip` starts, on the window as the store has it. -/
def enterWalk : SyncLoop :=
  { s with
    tracker :=
      { s.tracker with lastBlocks := Tracker.loadLastBlocksSortedByHeight s.tracker.db } }

/-- The cursor re-read after a walk, and the cached answer dropped. -/
def afterWalk (t : Tracker) (refused : Bool) : SyncLoop :=
  { s with
    tracker :=
      { t with
        lastProcessedBlockIndex := t.db.getLastBlockHeight
        lastProcessedBlockHash := t.db.getLastBlockHash }
    lastBlockchainInfo := none
    tipBelowCommittedTipRefused := refused }

inductive RecoveryResult where
  | ended (s : SyncLoop)
  /-- The walk is still going when the answers run out. -/
  | walking (s : SyncLoop) (w : Tracker.Walk)
  | threw (s : SyncLoop) (error : Tracker.ReorgError)

/-- `rollBackToNodeTip`. A refused walk counts the blocks it took off as a reorg. -/
def rollBackToNodeTip (lastBlockDb : Hash × BlockRecord) (rounds : List NodeAnswers) :
    RecoveryResult :=
  let s := s.enterWalk
  match s.tracker.verifyReorg s.blockchainInfoLastBlock rounds with
  | .next t w => .walking { s with tracker := t } w
  | .returned t _ => .ended (s.afterWalk t false)
  | .threw t _ (.tipBelowCommittedTip _) =>
      let s := s.afterWalk t true
      .ended { s with
        tracker := s.tracker.countRefusedWalk
          (lastBlockDb.2.h - s.tracker.lastProcessedBlockIndex).toNat }
  | .threw t _ error => .threw { s with tracker := t } error

/-- `repairLastBlockPointer` -/
def repairLastBlockPointer (lastBlockDb : Hash × BlockRecord) : RecoveryResult :=
  match s.tracker.commitLastBlockPointerRepair lastBlockDb.1 lastBlockDb.2.h with
  | .error message => .threw s (.other message)
  | .ok t =>
      .ended { s with
        tracker :=
          { t with
            lastProcessedBlockIndex := lastBlockDb.2.h
            lastProcessedBlockHash := some lastBlockDb.1 } }

/-- Our committed tip is above the node's: wait, settle the tip, then roll back onto the node's
chain or repair the stored pointer. -/
def recoverFromTipBelowOurs (replies : List (Option BlockchainInfo)) (rounds : List NodeAnswers) :
    RecoveryResult :=
  match s.settleForRecovery network replies with
  | .ended s => .ended s
  | .settled s =>
      match s.tracker.db.getLastBlock with
      | none =>
          .threw s (.other ("Tracker DB corrupt: committed height "
            ++ toString s.tracker.lastProcessedBlockIndex ++ " exceeds the node tip "
            ++ toString (s.blockchainInfoLastBlock.getD 0) ++ " but the block index (B-prefix) "
            ++ "is empty, so the true tip cannot be recovered. Recovery: full resync from a "
            ++ "known-good snapshot."))
      | some lastBlockDb =>
          if s.blockchainInfoLastBlock.any fun tip => tip < lastBlockDb.2.h then
            s.rollBackToNodeTip lastBlockDb rounds
          else s.repairLastBlockPointer lastBlockDb

/-! ### The pass -/

/-- What a pass does after reading the tip. -/
inductive TipPass where
  /-- The pass is over: the node is not synced, or its tip could not be read. -/
  | ended (s : SyncLoop)
  | recoverFromTipBelowOurs (s : SyncLoop)
  | pollAtTipOrIndex (s : SyncLoop)

/-- `reconcileRefreshedTip` -/
def reconcileRefreshedTip : TipPass :=
  let below := s.blockchainInfoLastBlock.any fun tip => tip < s.tracker.lastProcessedBlockIndex
  let reached := s.blockchainInfoLastBlock.any fun tip => s.tracker.lastProcessedBlockIndex ≤ tip
  let s := if reached then { s with nodeCatchingUp := none } else s
  let s :=
    if reached then { s with tipBelowCommittedTipRefused := false, nodeCatchingUpProblem := false }
    else s
  if below then .recoverFromTipBelowOurs s else .pollAtTipOrIndex s

/-- `refreshNodeTip` -/
def refreshNodeTip (reply : Option BlockchainInfo) : TipPass :=
  match reply with
  | none => .ended s
  | some info =>
      let s := { s with lastBlockchainInfo := some info, latestKnownChainTip := info.blocks }
      if !nodeTipIsParseable info network then
        .ended { s with
          synced := false
          mempoolReconverged := false
          lastBlockchainInfo := none
          nodeSyncedProblem := true }
      else
        reconcileRefreshedTip
          { s with nodeSyncedProblem := false, blockchainInfoLastBlock := info.blocks }

end SyncLoop

end UtxoTracker

import UtxoTracker.Lib.Transition
import UtxoTracker.Tracker.Reference
import UtxoTracker.Tracker.Reorg
/-!
# The tracker as a transition system

The sync loop's steps between two of its awaits, a restart from the durable store at any moment
included. Each step makes at most one durable write, so the states between steps are all the states a
crash can leave behind. Beside the tracker the system carries the blocks that the durable store and
the open batch stand for; no step of the code reads them.
-/

namespace UtxoTracker

/-- How the loop came to walk back. -/
inductive WalkEntry where
  /-- The next block's parent is not ours, or the node swapped our tip at its height. -/
  | mismatch
  /-- The node's settled tip is below the committed one. -/
  | tipBelow
  deriving DecidableEq, Repr

/-- Where the loop stands. -/
inductive Phase where
  | idle
  /-- The batch is durable, its aged-out blocks are not cleaned up yet. -/
  | flushed
  /-- `recoverFromTipBelowOurs`, the batch discarded. -/
  | recovering
  | walking (entry : WalkEntry) (walk : Tracker.Walk)
  /-- `verifyReorg` returned, or handed a tip below ours back. -/
  | walked (entry : WalkEntry)
  | stopped
  deriving DecidableEq, Repr

structure Sys where
  tracker : Tracker
  phase : Phase
  /-- The committed chain. -/
  chain : Chain
  /-- The blocks of the open batch, newest first. -/
  staged : Chain
  provenance : Provenance
  /-- The recovery records as indexing staged them. -/
  wrote : Key → Option Value

namespace Sys

variable (s : Sys)

/-- The database a crash would leave. -/
abbrev db : Db := s.tracker.db.db

/-- The chain once the open batch is committed. -/
abbrev full : Chain := s.staged ++ s.chain

/-- After staging `b`: its recovery records are the ones now in the batch. -/
def afterStage (b : Block) (t : Tracker) : Sys :=
  { s with
    tracker := t
    staged := b :: s.staged
    wrote := fun k => if k.undoBlock = some b.hash then t.db.getTransactionValue k else s.wrote k }

/-- After a round of the walk: the tip is off the chain when the round deleted it. -/
def afterRound (entry : WalkEntry) (before after : Tracker.Walk) (t : Tracker) : Sys :=
  match s.chain with
  | b :: rest =>
      if before.blocksDeleted.length < after.blocksDeleted.length then
        { s with
          tracker := t
          phase := .walking entry after
          chain := rest
          provenance := s.provenance.unwind b rest }
      else { s with tracker := t, phase := .walking entry after }
  | [] => { s with tracker := t, phase := .walking entry after }

end Sys

open Tracker

/-- One step of the loop, or a restart. The node and the disk choose freely: which valid block comes
next, when a batch is flushed, what the walk hears, and when the process dies. -/
inductive Step : Sys → Sys → Prop where
  | stage {s : Sys} {b : Block} {t : Tracker} (hphase : s.phase = .idle)
      (hvalid : ValidBlock s.full b) (hrun : s.tracker.indexNextBlock b = some (.ok t)) :
      Step s (s.afterStage b t)
  | stageFailed {s : Sys} {b : Block} {message : String} (hphase : s.phase = .idle)
      (hvalid : ValidBlock s.full b)
      (hrun : s.tracker.indexNextBlock b = some (.error message)) :
      Step s { s with phase := .stopped }
  | flush {s : Sys} {hash : Hash} {t : Tracker} (hphase : s.phase = .idle) (hstaged : s.staged ≠ [])
      (hhash : s.tracker.lastProcessedBlockHash = some hash)
      (hrun : s.tracker.commitBatch hash s.tracker.lastProcessedBlockIndex = .ok t) :
      Step s { s with tracker := t, phase := .flushed, chain := s.full, staged := [] }
  | cleanup {s : Sys} {t : Tracker} (hphase : s.phase = .flushed)
      (hrun : s.tracker.cleanupAgedBlocks = .ok t) :
      Step s { s with tracker := t.finishFlushedBlock, phase := .idle }
  | mismatch {s : Sys} (hphase : s.phase = .idle) :
      Step s { s with
        tracker := s.tracker.discardBatch
        phase := .walking .mismatch (s.tracker.discardBatch.startWalk none)
        staged := [] }
  | tipBelow {s : Sys} (hphase : s.phase = .idle) :
      Step s { s with
        tracker := { s.tracker.discardInflightBatchForReorg with blocksQuantity := 0 }
        phase := .recovering
        staged := [] }
  | repair {s : Sys} {hash : Hash} {record : BlockRecord} {t : Tracker}
      (hphase : s.phase = .recovering) (hlast : s.tracker.db.getLastBlock = some (hash, record))
      (hrun : s.tracker.commitLastBlockPointerRepair hash record.h = .ok t) :
      Step s { s with
        tracker := { t with lastProcessedBlockIndex := record.h, lastProcessedBlockHash := some hash }
        phase := .idle }
  | rollBackToNodeTip {s : Sys} {tip : Int} {hash : Hash} {record : BlockRecord} {t : Tracker}
      (hphase : s.phase = .recovering) (hlast : s.tracker.db.getLastBlock = some (hash, record))
      (hbelow : tip < record.h)
      (hreload : t =
        { s.tracker with lastBlocks := loadLastBlocksSortedByHeight s.tracker.db }) :
      Step s { s with tracker := t, phase := .walking .tipBelow (t.startWalk (some tip)) }
  | walkNext {s : Sys} {entry : WalkEntry} {w w' : Walk} {answers : NodeAnswers} {t : Tracker}
      (hphase : s.phase = .walking entry w)
      (hround : s.tracker.verifyReorgRound w answers = .next t w') :
      Step s (s.afterRound entry w w' t)
  | walkReturned {s : Sys} {entry : WalkEntry} {w w' : Walk} {answers : NodeAnswers} {t : Tracker}
      (hphase : s.phase = .walking entry w)
      (hround : s.tracker.verifyReorgRound w answers = .returned t w') :
      Step s { s with tracker := t, phase := .walked entry }
  | walkRefused {s : Sys} {entry : WalkEntry} {w w' : Walk} {answers : NodeAnswers} {t : Tracker}
      {message : String} (hphase : s.phase = .walking entry w)
      (hround : s.tracker.verifyReorgRound w answers =
        .threw t w' (.tipBelowCommittedTip message)) :
      Step s { s with
        tracker := t.countRefusedWalk w'.blocksDeleted.length
        phase := .walked entry }
  | walkFailed {s : Sys} {entry : WalkEntry} {w w' : Walk} {answers : NodeAnswers} {t : Tracker}
      {error : ReorgError} (hphase : s.phase = .walking entry w)
      (hround : s.tracker.verifyReorgRound w answers = .threw t w' error)
      (hfatal : ∀ message, error ≠ .tipBelowCommittedTip message) :
      Step s { s with tracker := t, phase := .stopped }
  | finishMismatch {s : Sys} {t : Tracker} (hphase : s.phase = .walked .mismatch)
      (hrun : s.tracker.reloadCursor.cleanupAgedBlocks = .ok t) :
      Step s { s with tracker := { t with pendingKMCleanup := [] }, phase := .idle }
  | finishTipBelow {s : Sys} (hphase : s.phase = .walked .tipBelow) :
      Step s { s with tracker := s.tracker.reloadCursor, phase := .idle }
  | restart {s : Sys} {undoBlocks : Nat} {t : Tracker} (hrun : start s.db undoBlocks = .ok t) :
      Step s { s with tracker := t, phase := .idle, staged := [] }

/-- A tracker started on a path that holds no store. -/
def FromEmpty (s : Sys) : Prop :=
  ∃ undoBlocks, start ∅ undoBlocks = .ok s.tracker ∧ s.phase = .idle ∧ s.chain = [] ∧
    s.staged = [] ∧ s.provenance = Provenance.live ∧ s.wrote = fun _ => none

/-- A step of a run that only indexes, at one window size: it stages, flushes, cleans up, or restarts
after a crash. -/
def IndexStep (undoBlocks : Nat) (s s' : Sys) : Prop :=
  Step s s' ∧ (s'.phase = .idle ∨ s'.phase = .flushed) ∧ s'.tracker.undoBlocks = undoBlocks

/-- A tracker started with this window on a path that holds no store. -/
def FromEmptyAt (undoBlocks : Nat) (s : Sys) : Prop :=
  FromEmpty s ∧ s.tracker.undoBlocks = undoBlocks

end UtxoTracker

import UtxoTracker.Proof.Growth
import UtxoTracker.Proof.WalkRun
/-!
# What moves the watermark

The mark in memory, its persisted copy and the `Q` record move when a block is staged and when a batch
is committed. Discarding a batch, repairing the pointer, cleaning up and walking back leave all three.
-/

namespace UtxoTracker

open KeyedStore LevelUpStore Provenance Tracker

/-- The mark, its persisted copy and the `Q` record on disk are as they were. -/
structure KeepsMark (t t' : Tracker) : Prop where
  watermark : t'.undoWindowWatermark = t.undoWindowWatermark
  persisted : t'.undoWindowWatermarkPersisted = t.undoWindowWatermarkPersisted
  record : t'.db.db[Key.undoWatermark]? = t.db.db[Key.undoWatermark]?

variable {t t' : Tracker} {p : Provenance} {chain rest : Chain} {b : Block} {depth : Nat}

theorem KeepsMark.refl (t : Tracker) : KeepsMark t t := ⟨rfl, rfl, rfl⟩

theorem KeepsMark.trans {t'' : Tracker} (hfirst : KeepsMark t t') (hsecond : KeepsMark t' t'') :
    KeepsMark t t'' :=
  ⟨hsecond.watermark.trans hfirst.watermark, hsecond.persisted.trans hfirst.persisted,
    hsecond.record.trans hfirst.record⟩

theorem CleanupFrame.keepsMark (hframe : CleanupFrame t t') : KeepsMark t t' :=
  ⟨hframe.watermark, hframe.persisted, hframe.db _ rfl (by simp)⟩

theorem keepsMark_discardBatch (t : Tracker) : KeepsMark t t.discardBatch := by
  refine ⟨rfl, rfl, ?_⟩
  by_cases hpending : t.pendingKMCleanup = []
  · simp only [discardBatch, if_pos hpending, discardTransaction]
  · simp only [discardBatch, if_neg hpending, discardTransaction]
    rw [Std.ExtTreeMap.getElem?_insert, if_neg]
    exact fun heq => by simpa using Std.LawfulEqOrd.eq_of_compare heq

theorem keepsMark_discardInflightBatchForReorg (t : Tracker) :
    KeepsMark t t.discardInflightBatchForReorg := by
  unfold discardInflightBatchForReorg
  split
  · exact .refl t
  · exact keepsMark_discardBatch t

theorem keepsMark_commitLastBlockPointerRepair {hash : Hash} {height : Int}
    (hrun : t.commitLastBlockPointerRepair hash height = .ok t') : KeepsMark t t' := by
  have hopen : t.db.beginTransaction.Open := open_beginTransaction
  have hopen₁ := hopen.addTransaction .lastBlockHash (.put (.hashText hash))
  have hopen₂ := hopen₁.addTransaction .lastBlockHeight (.put (.hexText height))
  obtain ⟨σ', hcommit, heffective, -⟩ := hopen₂.endTransaction
  have hfound : t.commitLastBlockPointerRepair hash height = .ok { t with db := σ' } := by
    unfold Tracker.commitLastBlockPointerRepair
    simp only [bind, Except.bind, setLastBlockHash, setLastBlockHeight, hcommit]
  rw [hfound] at hrun
  obtain rfl := Except.ok.inj hrun
  refine ⟨rfl, rfl, ?_⟩
  rw [heffective, effective, hopen₁.addTransaction_staged, hopen.addTransaction_staged,
    hopen₁.addTransaction_db, hopen.addTransaction_db, beginTransaction_staged, if_neg (by simp),
    if_neg (by simp), overlay_none]
  rfl

/-! ### Walking back -/

/-- Rolling the tip back, whether its commit reaches the disk or not. -/
theorem Durable.keepsMark_rollBackTipBlock
    (hdurable : Durable p (b :: rest) (depth + 1) t.db.db)
    (hlast : t.lastBlocks = (windowOf (b :: rest) (depth + 1)).reverse) (retryCount : Nat)
    (commits : Bool) :
    KeepsMark t (t.rollBackTipBlock b.hash (tipRecord b rest) retryCount commits).1 := by
  obtain ⟨σ', hstage, hwrote, -⟩ := hdurable.stageRollback hlast
  have hopen : t.db.beginTransaction.Open := open_beginTransaction
  have hdb : σ'.db = t.db.db := hwrote.db hopen
  cases commits with
  | false =>
      simp only [Tracker.rollBackTipBlock, hstage, Bool.false_eq_true, if_false]
      split <;> exact ⟨rfl, rfl, congrArg (·[Key.undoWatermark]?) hdb⟩
  | true =>
      obtain ⟨σ'', hcommit, heffective, -⟩ := (hwrote.isOpen hopen).endTransaction
      simp only [Tracker.rollBackTipBlock, hstage, if_true, hcommit]
      refine ⟨rfl, rfl, ?_⟩
      have hindexes : Indexes p (b :: rest) (b.hash :: windowOf rest depth)
          t.db.beginTransaction.db := hdurable.indexes
      rw [heffective, hwrote.effective_rollback_meta hopen beginTransaction_staged
        hdurable.valid.1 hindexes rfl, if_neg (by simp), if_neg (by simp)]
      rfl

theorem Durable.keepsMark_rollBackRound (hdurable : Durable p (b :: rest) depth t.db.db)
    (hlast : t.lastBlocks = (windowOf (b :: rest) depth).reverse) {w : Walk}
    (hwalk : WalkInv w t.undoBlocks depth) (answers : NodeAnswers) :
    KeepsMark t (t.rollBackRound w answers rest.length b.hash (tipRecord b rest)).tracker := by
  unfold rollBackRound refuseRollbackPastWindow
  split_ifs with hrefuse
  · exact .refl t
  · obtain ⟨hopen, hroom⟩ := not_or.mp hrefuse
    have hspent := hwalk.spent
    have hbudget := hwalk.budget
    obtain ⟨left, rfl⟩ : ∃ left, depth = left + 1 := ⟨depth - 1, by omega⟩
    have hkeeps := hdurable.keepsMark_rollBackTipBlock hlast w.retryCount answers.commits
    dsimp only
    split
    · next hrun =>
        rw [hrun] at hkeeps
        exact hkeeps
    · next hrun =>
        rw [hrun] at hkeeps
        exact hkeeps
    · next hrun =>
        rw [hrun] at hkeeps
        exact ⟨hkeeps.watermark, hkeeps.persisted, hkeeps.record⟩

/-- **A round of the walk** leaves the mark. -/
theorem Durable.keepsMark_verifyReorgRound (hdurable : Durable p chain depth t.db.db)
    (hlast : t.lastBlocks = (windowOf chain depth).reverse) {w : Walk}
    (hwalk : WalkInv w t.undoBlocks depth) (answers : NodeAnswers) :
    KeepsMark t (t.verifyReorgRound w answers).tracker := by
  unfold verifyReorgRound
  cases chain with
  | nil =>
      dsimp only
      split
      · exact .refl t
      · next hash _ =>
          have hnone : t.db.getBlock hash = none := by
            rw [hdurable.getBlock]
            rfl
          simp only [hnone, Option.filter_none, repairLastBlockPointerFromScan,
            hdurable.getLastBlock_nil]
          exact .refl t
  | cons b rest =>
      have hindex : t.db.getLastBlockHeight = rest.length := by
        rw [hdurable.getLastBlockHeight]
        simp
      have hblock : t.db.getBlock b.hash = some (tipRecord b rest) := hdurable.getBlock_tip
      have hfilter : (some (tipRecord b rest)).filter
          (fun block => decide (block.h = (rest.length : Int))) = some (tipRecord b rest) := by
        simp [tipRecord]
      simp only [hindex, hdurable.getLastBlockHash, hblock, hfilter]
      split
      · exact .refl t
      · split_ifs with habove
        · exact hdurable.keepsMark_rollBackRound hlast hwalk answers
        · cases answers.blockHash with
          | none => exact .refl t
          | some hash =>
              dsimp only
              split_ifs with hdiffers
              · exact hdurable.keepsMark_rollBackRound hlast hwalk answers
              · unfold recordReorg
                dsimp only [WalkResult.tracker]
                split
                · exact .refl t
                · exact ⟨rfl, rfl, rfl⟩

theorem keepsMark_countRefusedWalk (t : Tracker) (walkedBack : Nat) :
    KeepsMark t (t.countRefusedWalk walkedBack) := by
  unfold countRefusedWalk
  split
  · exact .refl t
  · exact ⟨rfl, rfl, rfl⟩

end UtxoTracker

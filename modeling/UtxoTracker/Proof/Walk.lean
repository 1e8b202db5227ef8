import UtxoTracker.Proof.RollbackStep
/-!
# One round of the reorg walk

Everything a round of `verifyReorg` can do on a durable store whose in-memory window is the stored
one. The pointer repair is out of reach: the tip pointer of a durable store names its tip.
-/

namespace UtxoTracker

open KeyedStore LevelUpStore Provenance Tracker

/-- Nothing durable changed, and the caches say no more than before. -/
structure SameDurable (σ σ' : LevelUpStore) : Prop where
  db : σ'.db = σ.db
  outputCache : σ'.outputCache = σ.outputCache
  knownScripts : σ'.knownScripts ⊆ σ.knownScripts

theorem SameDurable.refl (σ : LevelUpStore) : SameDurable σ σ := ⟨rfl, rfl, subset_rfl⟩

/-- The budget of a walk, against the window it has left. -/
structure WalkInv (w : Walk) (undoBlocks depth : Nat) : Prop where
  spent : w.blocksDeleted.length + depth = w.undoWindow.windowAtEntry
  budget : w.undoWindow.budget = min w.undoWindow.windowAtEntry undoBlocks
  within : w.blocksDeleted.length ≤ w.undoWindow.budget

/-- Why a round gives up the tip `b`: it is above the node's known tip, or the node has another block
at its height. -/
def Refuted (w : Walk) (answers : NodeAnswers) (b : Block) (rest : Chain) : Prop :=
  (∃ tip, w.tip = some tip ∧ tip < rest.length) ∨
    ∃ hash, answers.blockHash = some hash ∧ b.hash ≠ hash

/-- What a round can do. -/
inductive Round (p : Provenance) (chain : Chain) (depth : Nat) (t : Tracker) (w : Walk)
    (answers : NodeAnswers) : WalkResult → Prop where
  /-- A failed fetch or a failed commit: round again. -/
  | again {σ' : LevelUpStore} {w' : Walk} (hsame : SameDurable t.db σ')
      (hwhy : answers.blockHash = none ∨ answers.commits = false)
      (htip : w'.tip = w.tip ∨ w'.tip = refreshWalkTip w.tip answers.tips)
      (hdeleted : w'.blocksDeleted = w.blocksDeleted) (hwindow : w'.undoWindow = w.undoWindow) :
      Round p chain depth t w answers (.next { t with db := σ' } w')
  /-- The tip went. -/
  | rolledBack {b : Block} {rest : Chain} {left : Nat} {σ' : LevelUpStore} {w' : Walk}
      (hchain : chain = b :: rest) (hdepth : depth = left + 1)
      (hroom : w.blocksDeleted.length < w.undoWindow.budget)
      (hwhy : Refuted w answers b rest) (htip : w'.tip = w.tip)
      (hrolled : RolledBack p b rest left t.db σ')
      (hdeleted : w'.blocksDeleted = w.blocksDeleted ++ [((rest.length : Int), b.hash)])
      (hwindow : w'.undoWindow = w.undoWindow) :
      Round p chain depth t w answers (.next
        { t with
          db := σ'
          lastBlocks := (windowOf rest left).reverse
          reorgRollbacksThisProcess := t.reorgRollbacksThisProcess + 1 } w')
  /-- The node has our tip. -/
  | agreed {b : Block} {rest : Chain} (hchain : chain = b :: rest)
      (hanswer : answers.blockHash = some b.hash) :
      Round p chain depth t w answers (.returned (t.recordReorg w) w)
  | threw {σ' : LevelUpStore} {error : ReorgError} (hsame : SameDurable t.db σ') :
      Round p chain depth t w answers (.threw { t with db := σ' } w error)

variable {p : Provenance} {chain rest : Chain} {b : Block} {depth : Nat} {t : Tracker} {w : Walk}
  {answers : NodeAnswers}

theorem rollBackRound_cases (hdurable : Durable p (b :: rest) depth t.db.db)
    (hlast : t.lastBlocks = (windowOf (b :: rest) depth).reverse)
    (hwalk : WalkInv w t.undoBlocks depth) (hwhy : Refuted w answers b rest) :
    Round p (b :: rest) depth t w answers
      (t.rollBackRound w answers rest.length b.hash (tipRecord b rest)) := by
  unfold rollBackRound refuseRollbackPastWindow
  split_ifs with hrefuse
  · exact .threw (.refl t.db)
  · obtain ⟨hopen, hroom⟩ := not_or.mp hrefuse
    have hspent := hwalk.spent
    have hbudget := hwalk.budget
    obtain ⟨left, rfl⟩ : ∃ left, depth = left + 1 := ⟨depth - 1, by omega⟩
    cases hcommits : answers.commits with
    | true =>
        obtain ⟨σ', hrun, hrolled⟩ := hdurable.rollBackTipBlock hlast w.retryCount
        simp only [hrun]
        exact .rolledBack rfl rfl (by omega) hwhy rfl hrolled rfl rfl
    | false =>
        obtain ⟨σ', outcome, hrun, houtcome, hdb, hcache, hknown⟩ :=
          hdurable.rollBackTipBlock_failed hlast w.retryCount
        have hsame : SameDurable t.db σ' := ⟨hdb, hcache, by simp [hknown]⟩
        simp only [hrun]
        rcases houtcome with rfl | ⟨message, rfl⟩
        · exact .again hsame (Or.inr hcommits) (Or.inl rfl) rfl rfl
        · exact .threw hsame

/-- **Every round** of the walk, on a durable store. -/
theorem verifyReorgRound_cases (answers : NodeAnswers)
    (hdurable : Durable p chain depth t.db.db)
    (hlast : t.lastBlocks = (windowOf chain depth).reverse)
    (hwalk : WalkInv w t.undoBlocks depth) :
    Round p chain depth t w answers (t.verifyReorgRound w answers) := by
  unfold verifyReorgRound
  cases chain with
  | nil =>
      -- The pointer of an empty store names no block, and there is none to repair it from.
      dsimp only
      split
      · exact .threw (.refl t.db)
      · next hash _ =>
          have hnone : t.db.getBlock hash = none := by
            rw [hdurable.getBlock]
            rfl
          simp only [hnone, Option.filter_none, repairLastBlockPointerFromScan,
            hdurable.getLastBlock_nil]
          exact .threw (.refl t.db)
  | cons b rest =>
      have hindex : t.db.getLastBlockHeight = rest.length := by
        rw [hdurable.getLastBlockHeight]
        simp
      have hblock : t.db.getBlock b.hash = some (tipRecord b rest) := hdurable.getBlock_tip
      have hfilter : (some (tipRecord b rest)).filter
          (fun block => decide (block.h = (rest.length : Int))) = some (tipRecord b rest) := by
        simp [tipRecord]
      simp only [hindex, hdurable.getLastBlockHash, hblock, hfilter]
      split
      · exact .threw (.refl t.db)
      · split_ifs with habove
        · refine rollBackRound_cases hdurable hlast hwalk (Or.inl ?_)
          cases htip : w.tip with
          | none => simp [htip] at habove
          | some tip => exact ⟨tip, rfl, by simpa [htip] using habove⟩
        · cases hanswer : answers.blockHash with
          | none => exact .again (.refl t.db) (Or.inl hanswer) (Or.inr rfl) rfl rfl
          | some hash =>
              dsimp only
              split_ifs with hdiffers
              · exact rollBackRound_cases hdurable hlast hwalk (Or.inr ⟨hash, hanswer, hdiffers⟩)
              · exact .agreed rfl (by rw [hanswer, not_not.mp hdiffers])

end UtxoTracker

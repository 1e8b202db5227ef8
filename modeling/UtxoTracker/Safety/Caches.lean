import UtxoTracker.Proof.CacheLoss
import UtxoTracker.Safety.UtxoSet
/-!
# The process-global caches are transparent

A tracker whose caches lose entries at any moment, the mempool loop's doing included, and one whose
caches are always empty stage and commit the same writes, step by step, in every run.
-/

namespace UtxoTracker

open KeyedStore LevelUpStore Provenance Tracker

variable {s c : Sys} {depth : Nat} {b : Block} {t : Tracker}

/-! ### Other caches on the same store -/

/-- What the caches of a system must say of the chain. -/
structure CachesFit (σ : LevelUpStore) (chain : Chain) : Prop where
  known : ∀ script ∈ σ.knownScripts, (firstSeen chain script).isSome
  cache : CacheInv σ chain []

theorem CachesFit.empty {σ : LevelUpStore} {chain : Chain} : CachesFit σ.forget chain :=
  ⟨fun script hmem => (by cases hmem), cacheInv_empty rfl⟩

theorem CachesFit.loses {σ σ' : LevelUpStore} {chain : Chain} (hfit : CachesFit σ chain)
    (hloses : Loses σ σ') : CachesFit σ' chain :=
  ⟨fun script hmem => hfit.known script (hloses.scripts hmem), hfit.cache.loses hloses⟩

/-- Stores that differ in their caches alone. -/
theorem fields_of_forget {σ σ' : LevelUpStore} (hsame : σ'.forget = σ.forget) :
    σ'.db = σ.db ∧ σ'.transactionArray = σ.transactionArray ∧
      σ'.deletedTransactionArray = σ.deletedTransactionArray := by
  have hdb := congrArg LevelUpStore.db hsame
  have harray := congrArg LevelUpStore.transactionArray hsame
  have hdeleted := congrArg LevelUpStore.deletedTransactionArray hsame
  exact ⟨hdb, harray, hdeleted⟩

theorem StagedInv.recache {p : Provenance} {durable full : Chain} {window : List Hash}
    {σ σ' : LevelUpStore} (hinv : StagedInv p durable full window σ)
    (hsame : σ'.forget = σ.forget) (hfit : CachesFit σ' full) :
    StagedInv p durable full window σ' := by
  obtain ⟨hdb, harray, hdeleted⟩ := fields_of_forget hsame
  have hstaged : ∀ k, σ'.staged k = σ.staged k := fun k => by
    rw [LevelUpStore.staged, LevelUpStore.staged, harray]
  refine ⟨?_, hinv.suffix, fun k hk => ?_, ?_, fun k hdel => ?_, hfit.known, hfit.cache⟩
  · have hopen := hinv.isOpen
    rwa [LevelUpStore.Open, ← harray, ← hdeleted] at hopen
  · rw [LevelUpStore.effective, hstaged, hdb]
    exact hinv.effective k hk
  · rw [hdb, funext hstaged]
    exact hinv.coins
  · rw [hstaged] at hdel
    exact hinv.del_coin k hdel

/-- The system invariant reads the caches for what they say of the chain alone. -/
theorem InvAt.recache {σ : LevelUpStore} (hinv : InvAt s depth)
    (hsame : σ.forget = s.tracker.db.forget) (hfit : CachesFit σ s.full) :
    InvAt { s with tracker := { s.tracker with db := σ } } depth := by
  obtain ⟨hdb, harray, -⟩ := fields_of_forget hsame
  refine ⟨?_, hinv.valid, hinv.fits, hfit.known, hfit.cache, hinv.wrote, ?_⟩
  · rw [Sys.db, hdb]
    exact hinv.durable
  · have hloop := hinv.loop
    unfold LoopInv at hloop ⊢
    cases hphase : s.phase with
    | idle =>
        rw [hphase] at hloop
        obtain ⟨kept, hwindow, hkept⟩ := hloop.window
        refine ⟨⟨hloop.cursor.index, hloop.cursor.hash⟩, hloop.quantity,
          ⟨kept, ⟨hwindow.le, hwindow.last, hwindow.aged⟩, hkept⟩, fun hne => ?_⟩
        refine ⟨(hloop.batch hne).staged.recache hsame hfit, fun k hk hmark => ?_⟩
        rw [LevelUpStore.staged, harray]
        exact (hloop.batch hne).housekeeping k hk hmark
    | flushed =>
        rw [hphase] at hloop
        obtain ⟨kept, hkept, hwindow⟩ := hloop.window
        exact ⟨hloop.staged, ⟨hloop.cursor.index, hloop.cursor.hash⟩,
          kept, hkept, ⟨hwindow.le, hwindow.last, hwindow.aged⟩⟩
    | recovering =>
        rw [hphase] at hloop
        exact ⟨⟨hloop.1.staged, hloop.1.last⟩, hloop.2⟩
    | walking entry w =>
        rw [hphase] at hloop
        exact ⟨⟨hloop.1.staged, hloop.1.last⟩, hloop.2⟩
    | walked entry =>
        rw [hphase] at hloop
        exact ⟨hloop.staged, hloop.last⟩
    | stopped =>
        rw [hphase] at hloop
        exact ⟨hloop.staged, hloop.last⟩

theorem InvAt.cachesFit (hinv : InvAt s depth) : CachesFit s.tracker.db s.full :=
  ⟨hinv.known, hinv.cache⟩

theorem Inv.forget (hinv : Inv s) : Inv s.forget := by
  obtain ⟨depth, hinv⟩ := hinv
  exact ⟨depth, hinv.recache rfl .empty⟩

/-! ### Staging a block -/

theorem parseBlockTransactionsUnder_none (σ : LevelUpStore) (transactions : List Tx)
    (blockHash : Hash) (height : Int) :
    parseBlockTransactionsUnder .none σ transactions blockHash height =
      σ.parseBlockTransactions transactions blockHash height := by
  have houtput : ∀ (σ : LevelUpStore) (out : NewOutput) (blockHash : Hash),
      parseTxOutputUnder .none σ out blockHash = σ.parseTxOutput out blockHash :=
    fun _ _ _ => rfl
  have hlookups : ∀ (hints : List (SpentInput × Resolved)) (σ : LevelUpStore),
      outputLookupsUnder .none hints σ = outputLookups hints σ := by
    intro hints
    induction hints with
    | nil => exact fun _ => rfl
    | cons head rest ih =>
        intro σ
        simp only [outputLookupsUnder, outputLookups, ih]
        rfl
  simp only [parseBlockTransactionsUnder, parseBlockTransactions, removeOutputsWithInputsBatchUnder,
    removeOutputsWithInputsBatch, hlookups, parseOutputsUnder, parseOutputs, parseTxOutputsUnder,
    parseTxOutputs, houtput]

/-- With nothing lost, the block is staged as the tracker stages it. -/
theorem indexNextBlockUnder_none (t : Tracker) (b : Block) :
    t.indexNextBlockUnder .none b = t.indexNextBlock b := by
  simp only [indexNextBlockUnder, indexNextBlock, stageBlockUnder, stageBlock,
    parseBlockTransactionsUnder_none]

theorem addToLastBlocks_caches (t : Tracker) (blockHash : Hash) :
    (t.addToLastBlocks blockHash).db.outputCache = t.db.outputCache ∧
      (t.addToLastBlocks blockHash).db.knownScripts = t.db.knownScripts := by
  unfold addToLastBlocks recordUndoWindowWatermark
  dsimp only
  split
  · simp [dropDeleted, addLastStoredBlock]
  · simp [dropDeleted, addLastStoredBlock]

theorem forget_stageBase {t c : Tracker} (hsame : t.forget = c.forget) :
    (stageBase t).forget = (stageBase c).forget := by
  have hdb : t.db.forget = c.db.forget := congrArg Tracker.db hsame
  have hquantity : t.blocksQuantity = c.blocksQuantity := by
    have hfields := congrArg Tracker.blocksQuantity hsame
    exact hfields
  unfold stageBase
  rw [hquantity]
  split
  · rw [← forget_beginTransaction, hdb, forget_beginTransaction]
  · exact hdb

theorem indexNextBlockUnder_of_parsed {loss : CacheLoss} {height : Int} {σ₄ : LevelUpStore}
    (hlinked : ¬ (0 < t.lastProcessedBlockIndex + 1 ∧ some b.prevHash ≠ t.lastProcessedBlockHash))
    (hheight : t.lastProcessedBlockIndex + 1 = height)
    (hrun : parseBlockTransactionsUnder loss
      ((stageBase t).insertBlock b.hash height b.timestamp b.prevHash) b.transactions b.hash height =
        .ok σ₄) :
    t.indexNextBlockUnder loss b =
      some (.ok (({ t with db := σ₄ }.addToLastBlocks b.hash).advanceCursor b.hash height)) := by
  have hstage : t.stageBlockUnder loss b height =
      .ok ({ t with db := σ₄ }.addToLastBlocks b.hash) := by
    unfold stageBlockUnder
    unfold stageBase at hrun
    simp only [bind, Except.bind, hrun]
  unfold indexNextBlockUnder
  rw [if_neg hlinked, hheight, hstage]
  rfl

/-- **One block, any losses**: the writes are those of empty caches, and what is cached then fits the
longer chain. -/
theorem InvAt.stageUnder (hinv : InvAt s depth) (hphase : s.phase = .idle)
    (hvalid : ValidBlock s.full b) (loss : CacheLoss) {c : Tracker}
    (hsame : s.tracker.forget = c.forget) :
    ∃ t u, s.tracker.indexNextBlockUnder loss b = some (.ok t) ∧
      c.indexNextBlockUnder .all b = some (.ok u) ∧ t.forget = u.forget ∧
      CachesFit t.db (b :: s.full) := by
  have hidle := hinv.idle hphase
  have hbase := (hinv.stageBase hidle).1
  have hstores := forget_stageBase hsame
  have hlinked := hidle.cursor.linked hvalid
  have hheight : s.tracker.lastProcessedBlockIndex + 1 = s.full.length := by
    rw [hidle.cursor.index]
    omega
  have hindex : s.tracker.lastProcessedBlockIndex = c.lastProcessedBlockIndex := by
    have hfields := congrArg Tracker.lastProcessedBlockIndex hsame
    exact hfields
  have hhash : s.tracker.lastProcessedBlockHash = c.lastProcessedBlockHash := by
    have hfields := congrArg Tracker.lastProcessedBlockHash hsame
    exact hfields
  -- The block is staged with nothing lost, so it is staged with everything lost too.
  obtain ⟨σ₀, hrun₀, -⟩ := hbase.stage hinv.fits hvalid
  have hnone := (hbase.parseBlockTransactionsUnder hinv.fits hvalid .none hstores).1
  rw [parseBlockTransactionsUnder_none, hrun₀] at hnone
  obtain ⟨τ₄, hall, -⟩ := exists_ok_of_map_eq hnone.symm
  obtain ⟨hmap, hcaches⟩ := hbase.parseBlockTransactionsUnder hinv.fits hvalid loss hstores
  rw [hall] at hmap
  obtain ⟨σ₄, hrun, hforget⟩ := exists_ok_of_map_eq hmap
  obtain ⟨hcache, hknown⟩ := hcaches σ₄ hrun
  refine ⟨_, _, indexNextBlockUnder_of_parsed hlinked hheight hrun,
    indexNextBlockUnder_of_parsed (hindex ▸ hhash ▸ hlinked) (hindex ▸ hheight) hall, ?_, ?_⟩
  · have htrackers : ({ s.tracker with db := σ₄ } : Tracker).forget =
        ({ c with db := τ₄ } : Tracker).forget := by
      calc ({ s.tracker with db := σ₄ } : Tracker).forget
          = { s.tracker.forget with db := σ₄.forget } := rfl
        _ = { c.forget with db := τ₄.forget } := by rw [hsame, hforget]
    have hwindow : ({ s.tracker with db := σ₄ }.addToLastBlocks b.hash).forget =
        ({ c with db := τ₄ }.addToLastBlocks b.hash).forget := by
      rw [← forget_addToLastBlocks, htrackers, forget_addToLastBlocks]
    calc (({ s.tracker with db := σ₄ }.addToLastBlocks b.hash).advanceCursor b.hash
          s.full.length).forget
        = ({ s.tracker with db := σ₄ }.addToLastBlocks b.hash).forget.advanceCursor b.hash
            s.full.length := rfl
      _ = ({ c with db := τ₄ }.addToLastBlocks b.hash).forget.advanceCursor b.hash
            s.full.length := by rw [hwindow]
  · obtain ⟨houtputs, hscripts⟩ :=
      addToLastBlocks_caches ({ s.tracker with db := σ₄ } : Tracker) b.hash
    refine ⟨fun script hmem => hknown script ?_, hcache.congr houtputs⟩
    rw [← hscripts]
    exact hmem

/-! ### Every other step -/

/-- A fallible operation that does not read the caches runs alike on two trackers that differ in
them. -/
theorem run_of_forget {ε : Type} {f : Tracker → Except ε Tracker}
    (hf : ∀ t : Tracker, f t.forget = (f t).map Tracker.forget) {t c t' : Tracker}
    (hsame : t.forget = c.forget) (hrun : f t = .ok t') :
    ∃ c', f c = .ok c' ∧ t'.forget = c'.forget := by
  have hmap : (f c).map Tracker.forget = .ok t'.forget := by
    rw [← hf, ← hsame, hf, hrun]
    rfl
  obtain ⟨c', hrun', hforget⟩ := exists_ok_of_map_eq hmap
  exact ⟨c', hrun', hforget.symm⟩

/-- So does a round of the walk. -/
theorem round_of_forget {t c : Tracker} (hsame : t.forget = c.forget) (w : Walk)
    (answers : NodeAnswers) :
    (t.verifyReorgRound w answers).forget = (c.verifyReorgRound w answers).forget := by
  rw [← forget_verifyReorgRound, hsame, forget_verifyReorgRound]

theorem forget_afterRound (entry : WalkEntry) (w w' : Walk) (s : Sys) (t : Tracker) :
    (s.afterRound entry w w' t).forget = s.forget.afterRound entry w w' t.forget := by
  obtain ⟨tracker, phase, chain, staged, provenance, wrote⟩ := s
  cases chain with
  | nil => rfl
  | cons b rest =>
      simp only [Sys.afterRound, Sys.forget]
      split <;> rfl

/-- **The rest of the loop does not read the caches**: what one tracker does, one with other caches
does too. -/
theorem Step.of_forget {s' : Sys} (hinv : Inv s) (hstep : Step s s')
    (hnone : s'.staged.length ≤ s.staged.length) (hsame : s.forget = c.forget) :
    ∃ c', Step c c' ∧ c'.staged.length ≤ c.staged.length ∧ s'.forget = c'.forget := by
  obtain ⟨t, phase, chain, staged, provenance, wrote⟩ := s
  obtain ⟨u, phase', chain', staged', provenance', wrote'⟩ := c
  obtain ⟨htracker, rfl, rfl, rfl, rfl, rfl⟩ := Sys.mk.inj hsame
  have htracker : t.forget = u.forget := htracker
  have hundo : t.undoBlocks = u.undoBlocks := by
    have hfields := congrArg Tracker.undoBlocks htracker
    exact hfields
  have hindex : t.lastProcessedBlockIndex = u.lastProcessedBlockIndex := by
    have hfields := congrArg Tracker.lastProcessedBlockIndex htracker
    exact hfields
  have hhash : t.lastProcessedBlockHash = u.lastProcessedBlockHash := by
    have hfields := congrArg Tracker.lastProcessedBlockHash htracker
    exact hfields
  have hdb : t.db.db = u.db.db := by
    have hfields := congrArg (fun t : Tracker => t.db.db) htracker
    exact hfields
  have hlast : t.db.getLastBlock = u.db.getLastBlock := by
    rw [LevelUpStore.getLastBlock, LevelUpStore.getLastBlock, hdb]
  have hwith : ∀ f : Tracker → Tracker, (∀ t : Tracker, f t.forget = (f t).forget) →
      (f t).forget = (f u).forget := fun f hf => by rw [← hf, htracker, hf]
  have hsys : ∀ {t' u' : Tracker} (phase : Phase) (staged : Chain), t'.forget = u'.forget →
      Sys.forget ⟨t', phase, chain, staged, provenance, wrote⟩ =
        Sys.forget ⟨u', phase, chain, staged, provenance, wrote⟩ :=
    fun _ _ hforget => by rw [Sys.forget, Sys.forget, hforget]
  have hrounds := fun w answers => round_of_forget htracker w answers
  cases hstep with
  | stage hphase hvalid hrun => exact absurd hnone (by simp [Sys.afterStage])
  | stageFailed hphase hvalid hrun =>
      obtain ⟨depth, hinv⟩ := hinv
      obtain ⟨t', hindexed, -⟩ := hinv.stage hphase hvalid
      rw [hrun] at hindexed
      cases hindexed
  | @flush hash t' hphase hstaged hlasthash hrun =>
      obtain ⟨u', hrun', hforget⟩ := run_of_forget
        (f := fun t => t.commitBatch hash t.lastProcessedBlockIndex)
        (fun t => forget_commitBatch hash t.lastProcessedBlockIndex) htracker hrun
      refine ⟨_, .flush hphase hstaged (hhash ▸ hlasthash) hrun', Nat.zero_le _, ?_⟩
      rw [Sys.forget, Sys.forget, hforget]
  | @cleanup t' hphase hrun =>
      obtain ⟨u', hrun', hforget⟩ := run_of_forget (f := Tracker.cleanupAgedBlocks)
        (fun t => forget_cleanupAgedBlocks) htracker hrun
      refine ⟨_, .cleanup hphase hrun', le_rfl, hsys _ _ ?_⟩
      exact congrArg Tracker.finishFlushedBlock hforget
  | mismatch hphase =>
      refine ⟨_, .mismatch hphase, Nat.zero_le _, ?_⟩
      have hdiscard := hwith Tracker.discardBatch fun t => forget_discardBatch
      have hwalk : t.discardBatch.startWalk none = u.discardBatch.startWalk none := by
        have hstart := congrArg (fun t : Tracker => t.startWalk none) hdiscard
        exact hstart
      simp only [hwalk]
      exact hsys _ _ hdiscard
  | tipBelow hphase =>
      refine ⟨_, .tipBelow hphase, Nat.zero_le _, hsys _ _ ?_⟩
      exact congrArg (fun t : Tracker => { t with blocksQuantity := 0 })
        (hwith Tracker.discardInflightBatchForReorg fun t => forget_discardInflightBatchForReorg)
  | @repair hash record t' hphase hlastBlock hrun =>
      obtain ⟨u', hrun', hforget⟩ := run_of_forget
        (f := fun t => t.commitLastBlockPointerRepair hash record.h)
        (fun t => forget_commitLastBlockPointerRepair hash record.h) htracker hrun
      refine ⟨_, .repair hphase (hlast ▸ hlastBlock) hrun', le_rfl, hsys _ _ ?_⟩
      exact congrArg (fun t : Tracker => { t with
        lastProcessedBlockIndex := record.h
        lastProcessedBlockHash := some hash }) hforget
  | @rollBackToNodeTip tip hash record t' hphase hlastBlock hbelow hreload =>
      subst hreload
      refine ⟨_, .rollBackToNodeTip hphase (hlast ▸ hlastBlock) hbelow rfl, le_rfl, ?_⟩
      have hreloaded := hwith
        (fun t => { t with lastBlocks := loadLastBlocksSortedByHeight t.db }) fun t => rfl
      have hwalk : ({ t with lastBlocks := loadLastBlocksSortedByHeight t.db }).startWalk (some tip) =
          ({ u with lastBlocks := loadLastBlocksSortedByHeight u.db }).startWalk (some tip) := by
        have hstart := congrArg (fun t : Tracker => t.startWalk (some tip)) hreloaded
        exact hstart
      simp only [hwalk]
      exact hsys _ _ hreloaded
  | @walkNext entry w w' answers t' hphase hround =>
      have hboth := hrounds w answers
      rw [hround] at hboth
      cases hround' : u.verifyReorgRound w answers with
      | next u' w'' =>
          rw [hround'] at hboth
          obtain ⟨hforget, rfl⟩ := WalkResult.next.inj hboth
          refine ⟨_, .walkNext hphase hround', ?_, ?_⟩
          · unfold Sys.afterRound
            split
            · split <;> exact le_rfl
            · exact le_rfl
          · rw [forget_afterRound, forget_afterRound, hforget]
            exact congrArg (fun s : Sys => s.afterRound entry w w' u'.forget) hsame
      | returned u' w'' =>
          rw [hround'] at hboth
          cases hboth
      | threw u' w'' error =>
          rw [hround'] at hboth
          cases hboth
  | @walkReturned entry w w' answers t' hphase hround =>
      have hboth := hrounds w answers
      rw [hround] at hboth
      cases hround' : u.verifyReorgRound w answers with
      | returned u' w'' =>
          rw [hround'] at hboth
          obtain ⟨hforget, rfl⟩ := WalkResult.returned.inj hboth
          exact ⟨_, .walkReturned hphase hround', le_rfl, hsys _ _ hforget⟩
      | next u' w'' =>
          rw [hround'] at hboth
          cases hboth
      | threw u' w'' error =>
          rw [hround'] at hboth
          cases hboth
  | @walkRefused entry w w' answers t' message hphase hround =>
      have hboth := hrounds w answers
      rw [hround] at hboth
      cases hround' : u.verifyReorgRound w answers with
      | threw u' w'' error =>
          rw [hround'] at hboth
          obtain ⟨hforget, rfl, rfl⟩ := WalkResult.threw.inj hboth
          refine ⟨_, .walkRefused hphase hround', le_rfl, hsys _ _ ?_⟩
          have hcount : ∀ t : Tracker, (t.countRefusedWalk w'.blocksDeleted.length).forget =
              t.forget.countRefusedWalk w'.blocksDeleted.length := fun t => by
            unfold countRefusedWalk
            split <;> rfl
          rw [hcount, hcount, hforget]
      | next u' w'' =>
          rw [hround'] at hboth
          cases hboth
      | returned u' w'' =>
          rw [hround'] at hboth
          cases hboth
  | @walkFailed entry w w' answers t' error hphase hround hfatal =>
      have hboth := hrounds w answers
      rw [hround] at hboth
      cases hround' : u.verifyReorgRound w answers with
      | threw u' w'' error' =>
          rw [hround'] at hboth
          obtain ⟨hforget, rfl, rfl⟩ := WalkResult.threw.inj hboth
          exact ⟨_, .walkFailed hphase hround' hfatal, le_rfl, hsys _ _ hforget⟩
      | next u' w'' =>
          rw [hround'] at hboth
          cases hboth
      | returned u' w'' =>
          rw [hround'] at hboth
          cases hboth
  | @finishMismatch t' hphase hrun =>
      obtain ⟨u', hrun', hforget⟩ := run_of_forget (f := fun t => t.reloadCursor.cleanupAgedBlocks)
        (fun t => by rw [forget_reloadCursor, forget_cleanupAgedBlocks]) htracker hrun
      refine ⟨_, .finishMismatch hphase hrun', le_rfl, hsys _ _ ?_⟩
      exact congrArg (fun t : Tracker => { t with pendingKMCleanup := [] }) hforget
  | finishTipBelow hphase =>
      exact ⟨_, .finishTipBelow hphase, le_rfl,
        hsys _ _ (hwith Tracker.reloadCursor fun t => forget_reloadCursor)⟩
  | @restart undoBlocks t' hrun =>
      have hrun' : start u.db.db undoBlocks = .ok t' := hdb ▸ hrun
      exact ⟨_, .restart hrun', Nat.zero_le _, rfl⟩

/-! ### The invariant of a run with losses -/

theorem forget_afterStage (s : Sys) (b : Block) (t : Tracker) :
    (s.afterStage b t).forget = s.forget.afterStage b t.forget := rfl

theorem CachedStep.inv {s' : Sys} (hinv : Inv s) (hstep : CachedStep s s') : Inv s' := by
  obtain ⟨depth, hinv⟩ := hinv
  cases hstep with
  | @stage b t loss hphase hvalid hrun =>
      -- The block staged with nothing lost keeps the invariant, and differs in its caches alone.
      obtain ⟨t₀, hrun₀, -, -, hinv₀⟩ := hinv.stage hphase hvalid
      obtain ⟨t₁, u₁, hrun₁, hall₁, hforget₁, -⟩ :=
        hinv.stageUnder hphase hvalid .none (c := s.tracker) rfl
      obtain ⟨t₂, u₂, hrun₂, hall₂, hforget₂, hfit⟩ :=
        hinv.stageUnder hphase hvalid loss (c := s.tracker) rfl
      rw [indexNextBlockUnder_none, hrun₀, Option.some.injEq, Except.ok.injEq] at hrun₁
      rw [hrun, Option.some.injEq, Except.ok.injEq] at hrun₂
      rw [hall₁, Option.some.injEq, Except.ok.injEq] at hall₂
      subst hrun₁ hrun₂ hall₂
      have hsame : t.forget = t₀.forget := hforget₂.trans hforget₁.symm
      have hstore : t.db.forget = t₀.db.forget := congrArg Tracker.db hsame
      have hrecached := hinv₀.recache (σ := t.db) hstore hfit
      have htracker : ({ t₀ with db := t.db } : Tracker) = t := by
        calc ({ t₀ with db := t.db } : Tracker) = { t₀.forget with db := t.db } := rfl
          _ = { t.forget with db := t.db } := by rw [hsame]
          _ = t := rfl
      refine ⟨depth, ?_⟩
      have hsys : ({ s.afterStage b t₀ with
          tracker := { (s.afterStage b t₀).tracker with db := t.db } } : Sys) =
          s.afterStage b t := by
        have hvalue : t₀.db.getTransactionValue = t.db.getTransactionValue := by
          have hvalues := congrArg LevelUpStore.getTransactionValue hstore
          exact hvalues.symm
        simp only [Sys.afterStage, htracker, hvalue]
      rwa [hsys] at hrecached
  | @lose σ hloses =>
      exact ⟨depth, hinv.recache hloses.forget_eq (hinv.cachesFit.loses hloses)⟩
  | other hstep hnone => exact Inv.step ⟨depth, hinv⟩ hstep

theorem cached_inv (hreach : Transition.Reachable FromStore CachedStep s) : Inv s :=
  hreach.invariant (fun _ hinit => hinit.inv) fun _ _ hinv hstep => hstep.inv hinv

/-- A tracker that starts has empty caches. -/
theorem FromStore.forget (hinit : FromStore s) : s.forget = s := by
  have hempty : ∀ {db : Db} {undoBlocks : Nat} {t : Tracker}, start db undoBlocks = .ok t →
      t.forget = t := by
    intro db undoBlocks t hstart
    unfold Tracker.start at hstart
    simp only [bind, Except.bind] at hstart
    split at hstart
    · cases hstart
    · rw [← Except.ok.inj hstart]
      rfl
  rcases hinit with ⟨undoBlocks, hstart, -⟩ | ⟨_, _, _, db', undoBlocks, -, -, -, -, hstart, -⟩
  · rw [Sys.forget, hempty hstart]
  · rw [Sys.forget, hempty hstart]

/-- Every step of the tracker on its own is a step of the tracker with losses. -/
theorem Step.cached {s' : Sys} (hstep : Step s s') : CachedStep s s' := by
  by_cases hnone : s'.staged.length ≤ s.staged.length
  · exact .other hstep hnone
  · cases hstep with
    | stage hphase hvalid hrun =>
        refine .stage .none hphase hvalid ?_
        rw [indexNextBlockUnder_none, hrun]
    | walkNext hphase hround =>
        refine absurd ?_ hnone
        unfold Sys.afterRound
        split
        · split <;> exact le_rfl
        · exact le_rfl
    | _ => exact absurd (by simp) hnone

/-! ### Transparency -/

/-- The first pass of `b` on the store `σ`, when the script of `out` is looked up: the transactions
`before` are done, and the outputs `outs` of `tx`. -/
def atScriptLookup (loss : CacheLoss) (σ : LevelUpStore) (b : Block) (height : Int)
    (before : List Tx) (tx : Tx) (outs : List NewOutput) (out : NewOutput) : LevelUpStore :=
  loss.atScript out.outPoint
    (outs.foldl (fun σ out => parseTxOutputUnder loss σ out b.hash)
      ((parseOutputsUnder loss (σ.insertBlock b.hash height b.timestamp b.prevHash) before b.hash
        height).insertTransaction tx.id (some b.hash)))

/-- The second pass of `b` on the store `σ₂`, when the value of `input` is looked up: the inputs
`before` are done. -/
def atOutputLookup (loss : CacheLoss) (σ₂ : LevelUpStore) (before : List (SpentInput × Resolved))
    (input : SpentInput) : LevelUpStore :=
  loss.atLookup input.outPoint (outputLookupsUnder loss before σ₂).1

/-- The caches of `s` change nothing but the time it takes. -/
structure CachesTransparent (s : Sys) : Prop where
  /-- A block is staged alike, whatever the caches lost meanwhile. -/
  stages : ∀ (loss : CacheLoss) (b : Block), s.phase = .idle → ValidBlock s.full b →
    ∃ t c, s.tracker.indexNextBlockUnder loss b = some (.ok t) ∧
      s.tracker.forget.indexNextBlockUnder .all b = some (.ok c) ∧ t.forget = c.forget ∧
      t.db.db = c.db.db ∧ t.db.transactionArray = c.db.transactionArray ∧
      t.db.deletedTransactionArray = c.db.deletedTransactionArray
  /-- What the mempool loop does to the shared caches meanwhile is a loss. -/
  mempool : ∀ (m : LevelUpStore) (calls : List MempoolCall),
    CachedStep s { s with tracker := { s.tracker with db := s.tracker.db.during m calls } }
  /-- With empty caches the tracker takes the same step. -/
  follows : ∀ s', CachedStep s s' → s'.forget = s.forget ∨ CachelessStep s.forget s'.forget
  /-- And no other. -/
  leads : ∀ c, CachelessStep s.forget c → ∃ s', CachedStep s s' ∧ s'.forget = c
  /-- A hit on a known script names one whose record is staged or on disk. -/
  scriptHits : ∀ (loss : CacheLoss) (b : Block), s.phase = .idle → ValidBlock s.full b →
    ∀ before tx after outs out rest, b.transactions = before ++ tx :: after →
      newOutputs tx s.full.length = outs ++ out :: rest →
      (atScriptLookup loss (stageBase s.tracker) b s.full.length before tx outs
        out).ScriptsRecorded
  /-- A hit on a cached output is the `O` value on disk. -/
  outputHits : ∀ (loss : CacheLoss) (b : Block), s.phase = .idle → ValidBlock s.full b →
    ∀ σ₂, σ₂ = parseOutputsUnder loss
        ((stageBase s.tracker).insertBlock b.hash s.full.length b.timestamp b.prevHash)
        b.transactions b.hash s.full.length →
      ∀ before input script oVal rest,
        ((removeInputs b.transactions b.hash).map fun input => (input, σ₂.hintLookup input)) =
          before ++ (input, .onDisk script oVal) :: rest →
        ∀ record, (atOutputLookup loss σ₂ before input).outputCache[input.outPoint]? = some record →
          (atOutputLookup loss σ₂ before input).db[input.oKey script]? = some (.output record)

theorem InvAt.cachesTransparent (hinv : InvAt s depth) : CachesTransparent s := by
  refine ⟨fun loss b hphase hvalid => ?_, fun m calls => .lose (during_loses _ m calls),
    fun s' hstep => ?_, fun c hstep => ?_,
    fun loss b hphase hvalid before tx after outs out rest hsplit houts => ?_,
    fun loss b hphase hvalid σ₂ hσ₂ before input script oVal rest hsplit record hcached => ?_⟩
  · obtain ⟨t, c, hrun, hall, hforget, -⟩ :=
      hinv.stageUnder hphase hvalid loss (c := s.tracker.forget) rfl
    have hstore : t.db.forget = c.db.forget := congrArg Tracker.db hforget
    exact ⟨t, c, hrun, hall, hforget, fields_of_forget hstore⟩
  · cases hstep with
    | @stage b t loss hphase hvalid hrun =>
        obtain ⟨t', c, hrun', hall, hforget, -⟩ :=
          hinv.stageUnder hphase hvalid loss (c := s.tracker.forget) rfl
        rw [hrun, Option.some.injEq, Except.ok.injEq] at hrun'
        subst hrun'
        right
        have hvalid' : ValidBlock s.forget.full b := hvalid
        have hstep := CachelessStep.stage (s := s.forget) hphase hvalid' hall
        rwa [forget_afterStage, ← hforget, ← forget_afterStage] at hstep
    | lose hloses =>
        left
        rw [Sys.forget, Sys.forget, Tracker.forget, Tracker.forget]
        simp only [hloses.forget_eq]
    | other hstep hnone =>
        obtain ⟨c', hstep', hnone', hforget⟩ :=
          hstep.of_forget (c := s.forget) ⟨depth, hinv⟩ hnone rfl
        right
        rw [hforget]
        exact .other hstep' hnone'
  · cases hstep with
    | @stage b c hphase hvalid hrun =>
        obtain ⟨t, c', hrun', hall, hforget, -⟩ :=
          hinv.stageUnder hphase hvalid .none (c := s.tracker.forget) rfl
        have hcs : c' = c := by
          have hboth := hall.symm.trans hrun
          rwa [Option.some.injEq, Except.ok.injEq] at hboth
        subst hcs
        refine ⟨_, .stage .none hphase hvalid hrun', ?_⟩
        rw [forget_afterStage, hforget, forget_afterStage]
        rfl
    | other hstep hnone =>
        obtain ⟨s', hstep', hnone', hforget⟩ :=
          hstep.of_forget (c := s) (Inv.forget ⟨depth, hinv⟩) hnone rfl
        exact ⟨s', .other hstep' hnone', hforget.symm⟩
  · have hbase := (hinv.stageBase (hinv.idle hphase)).1
    have hopen := hbase.isOpen.addTransaction (.block b.hash)
      (.put (.block ⟨s.full.length, b.timestamp, b.prevHash⟩))
    have hheight : ∀ out' ∈ outs, out'.height = s.full.length := by
      intro out' hmem
      have hin : out' ∈ newOutputs tx s.full.length := by
        rw [houts]
        exact List.mem_append_left _ hmem
      exact newOutputs_height hin
    have hpass := (hbase.firstPass hinv.fits hvalid).parseOutputsUnder loss hopen before
      (Int.natCast_nonneg _)
    have hdone := (hpass.insertTransaction hopen tx.id).parseTxOutputsUnder loss hopen outs hheight
      (Int.natCast_nonneg _)
    exact (hdone.loses hopen (loss.script_loses out.outPoint _)).scriptsRecorded
  · have hbase := (hinv.stageBase (hinv.idle hphase)).1
    have hafter := hbase.afterOutputs hvalid (hbase.firstPassUnder hinv.fits hvalid loss)
    rw [← hσ₂] at hafter
    have htrue := hafter.hitsTrue hbase hvalid loss
    rw [hsplit] at htrue
    have hbefore : HitsTrue loss σ₂ before := fun σ' hσ' other script' oVal' record' hmem =>
      htrue σ' hσ' other script' oVal' record' (List.mem_append_left _ hmem)
    obtain ⟨hloses, -⟩ := outputLookupsUnder_spec loss σ₂ before hbefore σ₂ (.refl σ₂)
    have hdb : (atOutputLookup loss σ₂ before input).db = σ₂.db :=
      (loss.lookup_loses input.outPoint _).db.trans hloses.db
    rw [hdb]
    exact htrue _ hloses input script oVal record (by simp) hcached

end UtxoTracker

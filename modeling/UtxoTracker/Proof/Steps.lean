import UtxoTracker.Proof.Invariant
/-!
# Every step keeps the invariant

One lemma per step of the loop. Staging, flushing and the cleanup cannot fail from a state in the
invariant.
-/

namespace UtxoTracker

open KeyedStore LevelUpStore Provenance Tracker

variable {s : Sys} {depth : Nat} {b : Block} {t : Tracker}

/-! ### Staging -/

theorem InvAt.idle (hinv : InvAt s depth) (hphase : s.phase = .idle) : IdleInv s depth := by
  have hloop := hinv.loop
  rwa [LoopInv, hphase] at hloop

theorem Sys.full_of_staged_nil (hstaged : s.staged = []) : s.full = s.chain := by
  simp [Sys.full, hstaged]

/-- The store the next block is staged on. -/
theorem InvAt.stageBase (hinv : InvAt s depth) (hidle : IdleInv s depth) :
    StagedInv s.provenance s.chain s.full (windowOf s.full (depth + s.staged.length))
        (stageBase s.tracker) ∧
      ∀ k : Key, k.isMeta = true → k ≠ .undoWatermark → (stageBase s.tracker).staged k = none := by
  unfold UtxoTracker.stageBase
  by_cases hstaged : s.staged = []
  · have hfull := Sys.full_of_staged_nil hstaged
    have hquantity : s.tracker.blocksQuantity = 0 := by
      rw [hidle.quantity, hstaged, List.length_nil]
    have hknown := hinv.known
    have hcache := hinv.cache
    rw [hfull] at hknown hcache
    rw [if_pos hquantity, hfull, hstaged, List.length_nil, Nat.add_zero]
    exact ⟨hinv.durable.beginTransaction hknown hcache, fun k _ _ => beginTransaction_staged k⟩
  · have hquantity : s.tracker.blocksQuantity ≠ 0 := by
      rw [hidle.quantity]
      simpa using hstaged
    rw [if_neg hquantity]
    exact ⟨(hidle.batch hstaged).staged, (hidle.batch hstaged).housekeeping⟩

/-- Pushing a block on the window, and dropping what no longer fits. -/
theorem WindowInv.push {chain : Chain} {stored kept : Nat} (hwindow : WindowInv t chain stored kept)
    (t' : Tracker)
    (hlast : t'.lastBlocks = (t.lastBlocks ++ [b.hash]).drop
      ((t.lastBlocks ++ [b.hash]).length - t.undoBlocks))
    (hpending : t'.pendingKMCleanup =
      t.pendingKMCleanup ++ agedOut (t.lastBlocks ++ [b.hash]) t.undoBlocks) :
    WindowInv t' (b :: chain) (stored + 1) (min t.undoBlocks (kept + 1)) where
  le := (Nat.min_le_right _ _).trans (Nat.succ_le_succ hwindow.le)
  last := by
    have hpushed : t.lastBlocks ++ [b.hash] = (windowOf (b :: chain) (kept + 1)).reverse := by
      rw [hwindow.last, windowOf_reverse_cons]
    rw [hlast, hpushed, List.length_reverse, ← List.reverse_take]
    simp only [windowOf, List.map_take, List.take_take]
  aged := by
    intro hash hmem
    rw [hlast, hpending, List.mem_append]
    have hsplit : hash ∈ t.lastBlocks ++ [b.hash] ∨ hash ∈ t.pendingKMCleanup := by
      rw [windowOf_cons_succ, List.mem_cons] at hmem
      rcases hmem with rfl | hin
      · exact Or.inl (by simp)
      · exact (hwindow.aged hash hin).imp_left fun h => List.mem_append_left _ h
    rcases hsplit with hin | hin
    · rw [← List.take_append_drop ((t.lastBlocks ++ [b.hash]).length - t.undoBlocks)
        (t.lastBlocks ++ [b.hash]), List.mem_append] at hin
      exact hin.symm.imp_right Or.inr
    · exact Or.inr (Or.inl hin)

/-- A valid block passes the parent check. -/
theorem CursorInv.linked {chain : Chain} (hcursor : CursorInv t chain)
    (hvalid : ValidBlock chain b) :
    ¬ (0 < t.lastProcessedBlockIndex + 1 ∧ some b.prevHash ≠ t.lastProcessedBlockHash) := by
  rintro ⟨hheight, hparent⟩
  rw [hcursor.index] at hheight
  cases chain with
  | nil => simp at hheight
  | cons c rest => exact hparent (by rw [hcursor.hash c rfl, hvalid.linked c rfl])

/-- A valid block is always staged. -/
theorem InvAt.indexNextBlock (hinv : InvAt s depth) (hphase : s.phase = .idle)
    (hvalid : ValidBlock s.full b) :
    ∃ t₁, s.tracker.indexNextBlock b = some (.ok (t₁.advanceCursor b.hash s.full.length)) ∧
      StagedBlock s.provenance s.chain s.full (windowOf s.full (depth + s.staged.length)) b
        s.tracker t₁ := by
  have hidle := hinv.idle hphase
  obtain ⟨t₁, hrun, hstaged⟩ := stageBlock_spec (hinv.stageBase hidle).1 hinv.fits hvalid
  have hheight : s.tracker.lastProcessedBlockIndex + 1 = s.full.length := by
    rw [hidle.cursor.index]
    omega
  refine ⟨t₁, ?_, hstaged⟩
  unfold Tracker.indexNextBlock
  rw [if_neg (hidle.cursor.linked hvalid), hheight, hrun]
  rfl

/-- **Staging** a valid block, and the invariant holds again. -/
theorem InvAt.stage (hinv : InvAt s depth) (hphase : s.phase = .idle)
    (hvalid : ValidBlock s.full b) :
    ∃ t, s.tracker.indexNextBlock b = some (.ok t) ∧ t.undoBlocks = s.tracker.undoBlocks ∧
      t.lastBlocks = (s.tracker.lastBlocks ++ [b.hash]).drop
        ((s.tracker.lastBlocks ++ [b.hash]).length - s.tracker.undoBlocks) ∧
      InvAt (s.afterStage b t) depth := by
  have hidle := hinv.idle hphase
  obtain ⟨hbase, hbaseMeta⟩ := hinv.stageBase hidle
  obtain ⟨t₁, hrun, hstaged⟩ := hinv.indexNextBlock hphase hvalid
  obtain ⟨kept, hwindow, -⟩ := hidle.window
  refine ⟨t₁.advanceCursor b.hash s.full.length, hrun, hstaged.undoBlocks, hstaged.lastBlocks, ?_⟩
  refine ⟨?_, ⟨hvalid, hinv.valid⟩, hinv.fits.cons hvalid, hstaged.inv.known, hstaged.inv.cache,
    fun k hash hundo hmem => ?_, ?_⟩
  · have hdurable := hinv.durable
    rw [Sys.db, ← hstaged.db] at hdurable
    exact hdurable
  · -- The block's own records are the ones just staged; the others are what they were.
    simp only [Sys.afterStage, Sys.full, List.cons_append, blockAt_cons]
    by_cases hhash : hash = b.hash
    · subst hhash
      rw [if_pos hundo, if_pos rfl]
      exact hstaged.own k hundo
    · have hin : hash ∈ windowOf s.full (depth + s.staged.length) :=
        (List.mem_cons.mp hmem).resolve_left hhash
      have hne : ¬ some hash = some b.hash := by simpa using hhash
      have hne' : ¬ b.hash = hash := fun heq => hhash heq.symm
      rw [hundo, if_neg hne, if_neg hne']
      exact hinv.wrote k hash hundo hin
  · have hwindow' := hwindow.push t₁ hstaged.lastBlocks hstaged.pending
    have hloop : IdleInv (s.afterStage b (t₁.advanceCursor b.hash s.full.length)) depth := by
      refine ⟨⟨?_, ?_⟩, ?_, ⟨_, ⟨hwindow'.le, hwindow'.last, hwindow'.aged⟩, ?_⟩,
        fun _ => ⟨hstaged.inv, fun k hk hne => ?_⟩⟩
      · simp [Sys.afterStage, advanceCursor, Sys.full]
      · simp [Sys.afterStage, advanceCursor, Sys.full]
      · simp only [Sys.afterStage, advanceCursor, hstaged.blocksQuantity, hidle.quantity,
          List.length_cons]
      · have hne : (s.afterStage b (t₁.advanceCursor b.hash s.full.length)).staged ≠ [] :=
          List.cons_ne_nil _ _
        rw [if_neg hne]
        exact (Nat.min_le_left _ _).trans hstaged.undoBlocks.ge
      · exact (hstaged.housekeeping k hk hne).trans (hbaseMeta k hk hne)
    have hphase' : (s.afterStage b (t₁.advanceCursor b.hash s.full.length)).phase = .idle := hphase
    rw [LoopInv, hphase']
    exact hloop

/-! ### Flushing and cleaning up -/

/-- What a flush leaves of the tracker and of the housekeeping records. -/
structure FlushFrame (t t' : Tracker) : Prop where
  watermark : t'.undoWindowWatermark = t.undoWindowWatermark
  persisted : t'.undoWindowWatermarkPersisted = t.undoWindowWatermarkPersisted
  pending : t'.pendingKMCleanup = t.pendingKMCleanup
  db : ∀ k : Key, k ≠ .lastBlockHash → k ≠ .lastBlockHeight → k ≠ .pendingCleanup →
    t'.db.db[k]? = t.db.effective k
  queue : t.pendingKMCleanup = [] → t'.db.db[Key.pendingCleanup]? = t.db.db[Key.pendingCleanup]?

/-- What a cleanup leaves of the tracker and of the housekeeping records. -/
structure CleanupFrame (t t' : Tracker) : Prop where
  watermark : t'.undoWindowWatermark = t.undoWindowWatermark
  persisted : t'.undoWindowWatermarkPersisted = t.undoWindowWatermarkPersisted
  pending : t'.pendingKMCleanup = []
  db : ∀ k : Key, k.isMeta = true → k ≠ .pendingCleanup → t'.db.db[k]? = t.db.db[k]?
  queue : t'.db.db[Key.pendingCleanup]? =
    if t.pendingKMCleanup = [] then t.db.db[Key.pendingCleanup]? else none

/-- **The flush**: what was staged is durable, in one write. -/
theorem InvAt.flush (hinv : InvAt s depth) (hphase : s.phase = .idle) (hstaged : s.staged ≠ []) :
    ∃ hash t, s.tracker.lastProcessedBlockHash = some hash ∧
      s.tracker.commitBatch hash s.tracker.lastProcessedBlockIndex = .ok t ∧
      t.undoBlocks = s.tracker.undoBlocks ∧ t.lastBlocks = s.tracker.lastBlocks ∧
      FlushFrame s.tracker t ∧
      InvAt { s with tracker := t, phase := .flushed, chain := s.full, staged := [] }
        (depth + s.staged.length) := by
  have hidle := hinv.idle hphase
  obtain ⟨hbatch, hhousekeeping⟩ := hidle.batch hstaged
  obtain ⟨b, rest, hfull⟩ : ∃ b rest, s.full = b :: rest :=
    List.exists_cons_of_ne_nil (List.append_ne_nil_of_left_ne_nil hstaged _)
  have hindex : s.tracker.lastProcessedBlockIndex = rest.length := by
    rw [hidle.cursor.index, hfull]
    simp
  have hvalid := hinv.valid
  have hfits := hinv.fits
  have hdepth : depth + s.staged.length ≤ (b :: rest).length := by
    rw [← hfull, List.length_append]
    have := hinv.durable.depth_le
    omega
  rw [hfull] at hvalid hfits hbatch
  obtain ⟨σ', hcommit, hdurable, hcache, hknown, hframe, hqueue⟩ :=
    commitBatch_spec hbatch hhousekeeping hfits hvalid hdepth hinv.durable.stamp hinv.durable.queue
  obtain ⟨kept, hwindow, hkept⟩ := hidle.window
  rw [if_neg hstaged] at hkept
  rw [← hindex] at hcommit
  refine ⟨b.hash, _, hidle.cursor.hash b (by rw [hfull]; rfl), hcommit, rfl, rfl,
    ⟨rfl, rfl, rfl, hframe, hqueue⟩, ?_,
    hinv.valid, ?_, ?_, ?_, hinv.wrote, ?_⟩
  · rw [← hfull] at hdurable
    exact hdurable
  · exact hinv.fits
  · intro script hscript
    rw [hknown] at hscript
    exact hinv.known script hscript
  · exact hinv.cache.congr hcache
  · exact ⟨rfl, ⟨hidle.cursor.index, hidle.cursor.hash⟩, kept, hkept,
      hwindow.le, hwindow.last, hwindow.aged⟩

/-- The state between blocks with nothing staged. -/
theorem IdleInv.of_settled (hstaged : s.staged = []) (hcursor : CursorInv s.tracker s.chain)
    (hquantity : s.tracker.blocksQuantity = 0)
    (hlast : s.tracker.lastBlocks = (windowOf s.chain depth).reverse) : IdleInv s depth where
  cursor := by
    rw [Sys.full_of_staged_nil hstaged]
    exact hcursor
  quantity := by rw [hquantity, hstaged, List.length_nil]
  window := by
    refine ⟨depth, ⟨Nat.le_add_right _ _, ?_, fun hash hmem => Or.inl ?_⟩, by rw [if_pos hstaged]⟩
    · rw [Sys.full_of_staged_nil hstaged]
      exact hlast
    · rw [hlast, List.mem_reverse]
      rwa [Sys.full_of_staged_nil hstaged, hstaged] at hmem
  batch := fun hne => absurd hstaged hne

/-- Moving to a state with nothing staged, over the same durable chain. -/
theorem InvAt.settle (hinv : InvAt s depth) {s' : Sys} {depth' : Nat} (hle : depth' ≤ depth)
    (hchain : s'.chain = s.chain) (hprovenance : s'.provenance = s.provenance)
    (hwrote : s'.wrote = s.wrote) (hstaged : s'.staged = [])
    (hdurable : Durable s.provenance s.chain depth' s'.db)
    (hknown : ∀ script ∈ s'.tracker.db.knownScripts, (firstSeen s.chain script).isSome)
    (hcache : CacheInv s'.tracker.db s.chain []) (hloop : LoopInv s' depth') : InvAt s' depth' := by
  have hfull : s'.full = s.chain := (Sys.full_of_staged_nil hstaged).trans hchain
  refine ⟨hchain ▸ hprovenance ▸ hdurable, hfull ▸ hdurable.valid, ?_, hfull ▸ hknown,
    hfull ▸ hcache, ?_, hloop⟩
  · rw [hfull, hprovenance, hstaged, List.length_nil, Nat.add_zero]
    exact hdurable.fits
  · intro k hash hundo hmem
    rw [hfull, hstaged, List.length_nil, Nat.add_zero] at hmem
    have hmem' := windowOf_subset hle hmem
    rw [hwrote, hprovenance, hfull, hinv.wrote k hash hundo ?_,
      blockAt_append hinv.valid (mem_windowOf hmem')]
    rw [windowOf_append]
    exact List.mem_append_right _ hmem'

/-- **The cleanup** after a flush. -/
theorem InvAt.cleanup (hinv : InvAt s depth) (hphase : s.phase = .flushed) :
    ∃ t, s.tracker.cleanupAgedBlocks = .ok t ∧ t.undoBlocks = s.tracker.undoBlocks ∧
      t.lastBlocks = s.tracker.lastBlocks ∧
      CleanupFrame s.tracker t ∧ ∃ kept ≤ s.tracker.undoBlocks, kept ≤ depth ∧
        t.lastBlocks = (windowOf s.chain kept).reverse ∧
          InvAt { s with tracker := t.finishFlushedBlock, phase := .idle } kept := by
  have hflushed : FlushedInv s depth := by
    have hloop := hinv.loop
    rwa [LoopInv, hphase] at hloop
  obtain ⟨kept, hkept, hwindow⟩ := hflushed.window
  obtain ⟨σ', hclean, hdurable, hcache, hknown, hframe, hqueue⟩ :=
    hinv.durable.cleanupAgedBlocks hwindow.le hwindow.last hwindow.aged
  have hfull := Sys.full_of_staged_nil hflushed.staged
  have hcacheInv := hinv.cache
  have hknownInv := hinv.known
  rw [hfull] at hcacheInv hknownInv
  refine ⟨_, hclean, rfl, rfl, ⟨rfl, rfl, rfl, hframe, hqueue⟩, kept, hkept, hwindow.le, hwindow.last,
    hinv.settle hwindow.le rfl rfl rfl hflushed.staged hdurable ?_ (hcacheInv.congr hcache) ?_⟩
  · intro script hscript
    exact hknownInv script (hknown ▸ hscript)
  · exact IdleInv.of_settled hflushed.staged ⟨hflushed.cursor.index, hflushed.cursor.hash⟩ rfl
      hwindow.last

/-! ### Discarding the open batch -/

/-- A write to the `P` key alone. -/
theorem Durable.insert_pendingCleanup {p : Provenance} {chain : Chain} {db : Db}
    (hdurable : Durable p chain depth db) {hashes : List Hash} (hne : hashes ≠ []) :
    Durable p chain depth (db.insert .pendingCleanup (.hashList hashes)) := by
  have hkey : ∀ k : Key, k ≠ .pendingCleanup →
      (db.insert .pendingCleanup (.hashList hashes))[k]? = db[k]? := by
    intro k hne
    rw [Std.ExtTreeMap.getElem?_insert, if_neg]
    exact fun heq => hne (Std.LawfulEqOrd.eq_of_compare heq).symm
  refine ⟨hdurable.valid, hdurable.fits, fun k hmeta => ?_, ?_, ?_, fun value hget => ?_,
    hdurable.depth_le⟩
  · rw [hkey k (by rintro rfl; cases hmeta)]
    exact hdurable.indexes k hmeta
  · exact hdurable.tip.congr (hkey _ (by simp)) (hkey _ (by simp))
  · rw [hkey _ (by simp)]
    exact hdurable.stamp
  · rw [Std.ExtTreeMap.getElem?_insert_self, Option.some.injEq] at hget
    exact ⟨hashes, hne, hget.symm⟩

/-- A discarded batch leaves the durable store and the stored window. -/
theorem Durable.discardBatch {p : Provenance} {chain : Chain}
    (hdurable : Durable p chain depth t.db.db) :
    Durable p chain depth t.discardBatch.db.db ∧
      t.discardBatch.lastBlocks = (windowOf chain depth).reverse ∧
      t.discardBatch.db.knownScripts = ∅ ∧
      t.discardBatch.db.outputCache = t.db.outputCache := by
  have hstore : Durable p chain depth t.discardBatch.db.db := by
    unfold Tracker.discardBatch
    dsimp only
    split
    · exact hdurable
    · next hne => exact hdurable.insert_pendingCleanup hne
  refine ⟨hstore, hstore.loadLastBlocks, ?_, ?_⟩ <;>
  · unfold Tracker.discardBatch
    dsimp only
    split <;> rfl

/-- A walk starts with the window it has. -/
theorem WalkInv.start (hlast : t.lastBlocks.length = depth) (nodeTipHeight : Option Int) :
    WalkInv (t.startWalk nodeTipHeight) t.undoBlocks depth := by
  refine ⟨?_, ?_, Nat.zero_le _⟩
  · simp [startWalk, rollbackBudget, hlast]
  · simp only [startWalk, rollbackBudget]
    split_ifs <;> omega

theorem Durable.window_length {p : Provenance} {chain : Chain}
    (hdurable : Durable p chain depth t.db.db)
    (hlast : t.lastBlocks = (windowOf chain depth).reverse) : t.lastBlocks.length = depth := by
  rw [hlast, List.length_reverse, windowOf_length hdurable.depth_le]

theorem InvAt.mismatch (hinv : InvAt s depth) :
    InvAt { s with
      tracker := s.tracker.discardBatch
      phase := .walking .mismatch (s.tracker.discardBatch.startWalk none)
      staged := [] } depth := by
  obtain ⟨hdurable, hlast, hknown, hcache⟩ := hinv.durable.discardBatch
  refine hinv.settle le_rfl rfl rfl rfl rfl hdurable (fun script hscript => ?_)
    ((hinv.cache.below hinv.valid).congr hcache) ⟨⟨rfl, hlast⟩,
      WalkInv.start (hdurable.window_length hlast) none⟩
  rw [hknown] at hscript
  simp at hscript

theorem InvAt.tipBelow (hinv : InvAt s depth) (hphase : s.phase = .idle) :
    InvAt { s with
      tracker := { s.tracker.discardInflightBatchForReorg with blocksQuantity := 0 }
      phase := .recovering
      staged := [] } depth := by
  have hidle := hinv.idle hphase
  unfold discardInflightBatchForReorg
  by_cases hquantity : s.tracker.blocksQuantity = 0
  · have hstaged : s.staged = [] := by
      rw [hidle.quantity] at hquantity
      exact List.length_eq_zero_iff.mp hquantity
    obtain ⟨kept, hwindow, hkept⟩ := hidle.window
    rw [if_pos hstaged] at hkept
    have hlast := hwindow.last
    have hknown := hinv.known
    have hcache := hinv.cache
    rw [Sys.full_of_staged_nil hstaged] at hlast hknown hcache
    rw [if_pos hquantity]
    exact hinv.settle le_rfl rfl rfl rfl rfl hinv.durable hknown hcache
      ⟨⟨rfl, hkept ▸ hlast⟩, rfl⟩
  · obtain ⟨hdurable, hlast, hknown, hcache⟩ := hinv.durable.discardBatch
    rw [if_neg hquantity]
    refine hinv.settle le_rfl rfl rfl rfl rfl hdurable (fun script hscript => ?_)
      ((hinv.cache.below hinv.valid).congr hcache) ⟨⟨rfl, hlast⟩, rfl⟩
    rw [hknown] at hscript
    simp at hscript

/-! ### Repairing the pointer -/

/-- The repair writes the pointer that a durable store already has. -/
theorem Durable.commitLastBlockPointerRepair {p : Provenance} {rest : Chain}
    (hdurable : Durable p (b :: rest) depth t.db.db) :
    ∃ σ', t.commitLastBlockPointerRepair b.hash rest.length = .ok { t with db := σ' } ∧
      Durable p (b :: rest) depth σ'.db ∧ σ'.outputCache = t.db.outputCache ∧
      σ'.knownScripts = t.db.knownScripts := by
  have hopen : t.db.beginTransaction.Open := open_beginTransaction
  have hopen₁ := hopen.addTransaction .lastBlockHash (.put (.hashText b.hash))
  have hopen₂ := hopen₁.addTransaction .lastBlockHeight (.put (.hexText rest.length))
  obtain ⟨σ', hcommit, heffective, -, -, hcache, hknown⟩ := hopen₂.endTransaction
  have hkey : ∀ k : Key, σ'.db[k]? = t.db.db[k]? := by
    intro k
    rw [heffective, effective, hopen₁.addTransaction_staged, hopen.addTransaction_staged,
      hopen₁.addTransaction_db, hopen.addTransaction_db, beginTransaction_staged]
    by_cases hheight : Key.lastBlockHeight = k
    · subst hheight
      simpa using hdurable.tip.1.symm
    · by_cases hhash : Key.lastBlockHash = k
      · subst hhash
        simpa using hdurable.tip.2.symm
      · rw [if_neg hheight, if_neg hhash]
        rfl
  refine ⟨σ', ?_, ⟨hdurable.valid, hdurable.fits, fun k hmeta => ?_,
    hdurable.tip.congr (hkey _) (hkey _), ?_, fun value hget => ?_, hdurable.depth_le⟩,
    hcache.trans ?_, hknown.trans ?_⟩
  · unfold Tracker.commitLastBlockPointerRepair
    simp only [bind, Except.bind, setLastBlockHash, setLastBlockHeight, hcommit]
  · rw [hkey]
    exact hdurable.indexes k hmeta
  · rw [hkey]
    exact hdurable.stamp
  · rw [hkey] at hget
    exact hdurable.queue value hget
  · simp [LevelUpStore.beginTransaction]
  · simp [LevelUpStore.beginTransaction]

theorem InvAt.recovering (hinv : InvAt s depth) (hphase : s.phase = .recovering) :
    SettledInv s depth ∧ s.tracker.blocksQuantity = 0 := by
  have hloop := hinv.loop
  rwa [LoopInv, hphase] at hloop

theorem InvAt.repair (hinv : InvAt s depth) (hphase : s.phase = .recovering) {hash : Hash}
    {record : BlockRecord} (hlast : s.tracker.db.getLastBlock = some (hash, record))
    (hrun : s.tracker.commitLastBlockPointerRepair hash record.h = .ok t) :
    InvAt { s with
      tracker := { t with lastProcessedBlockIndex := record.h, lastProcessedBlockHash := some hash }
      phase := .idle } depth := by
  obtain ⟨hsettled, hquantity⟩ := hinv.recovering hphase
  have hfull := Sys.full_of_staged_nil hsettled.staged
  have hknownInv := hinv.known
  have hcacheInv := hinv.cache
  have hdurable := hinv.durable
  rw [hfull] at hknownInv hcacheInv
  obtain ⟨b, rest, hchain⟩ : ∃ b rest, s.chain = b :: rest := by
    refine List.exists_cons_of_ne_nil fun hnil => ?_
    rw [hnil] at hdurable
    rw [hdurable.getLastBlock_nil] at hlast
    cases hlast
  rw [hchain] at hdurable
  rw [hdurable.getLastBlock, Option.some.injEq, Prod.mk.injEq] at hlast
  obtain ⟨rfl, rfl⟩ := hlast
  obtain ⟨σ', hcommit, hdurable', hcache, hknown⟩ := hdurable.commitLastBlockPointerRepair
  rw [hcommit] at hrun
  obtain rfl := Except.ok.inj hrun
  rw [← hchain] at hdurable'
  refine hinv.settle le_rfl rfl rfl rfl hsettled.staged hdurable' (fun script hscript => ?_)
    (hcacheInv.congr hcache) (IdleInv.of_settled hsettled.staged ⟨?_, ?_⟩ hquantity
      hsettled.last)
  · exact hknownInv script (hknown ▸ hscript)
  · simp [hchain]
  · simp [hchain]

/-! ### Walking back -/

section Walk

variable {entry : WalkEntry} {w w' : Walk} {answers : NodeAnswers} {error : ReorgError}

theorem InvAt.walking (hinv : InvAt s depth) (hphase : s.phase = .walking entry w) :
    SettledInv s depth ∧ WalkInv w s.tracker.undoBlocks depth := by
  have hloop := hinv.loop
  rwa [LoopInv, hphase] at hloop

theorem InvAt.round (hinv : InvAt s depth) (hphase : s.phase = .walking entry w)
    (answers : NodeAnswers) :
    Round s.provenance s.chain depth s.tracker w answers
      (s.tracker.verifyReorgRound w answers) :=
  verifyReorgRound_cases answers hinv.durable (hinv.walking hphase).1.last (hinv.walking hphase).2

/-- A change of the store that is not durable, while nothing is staged. -/
theorem InvAt.sameDurable (hinv : InvAt s depth) (hsettled : SettledInv s depth) {s' : Sys}
    (hchain : s'.chain = s.chain) (hprovenance : s'.provenance = s.provenance)
    (hwrote : s'.wrote = s.wrote) (hstaged : s'.staged = [])
    (hsame : SameDurable s.tracker.db s'.tracker.db) (hloop : LoopInv s' depth) :
    InvAt s' depth := by
  have hfull := Sys.full_of_staged_nil hsettled.staged
  have hknown := hinv.known
  have hcache := hinv.cache
  have hdurable := hinv.durable
  rw [hfull] at hknown hcache
  rw [Sys.db, ← hsame.db] at hdurable
  exact hinv.settle le_rfl hchain hprovenance hwrote hstaged hdurable
    (fun script hscript => hknown script (hsame.knownScripts hscript))
    (hcache.congr hsame.outputCache) hloop

/-- The tip rolled back. -/
theorem InvAt.rolledBack (hinv : InvAt s (depth + 1)) (hsettled : SettledInv s (depth + 1))
    {rest : Chain} (hchain : s.chain = b :: rest)
    (hrolled : RolledBack s.provenance b rest depth s.tracker.db t.db) {phase : Phase}
    (hloop : LoopInv { s with
      tracker := t
      phase := phase
      chain := rest
      provenance := s.provenance.unwind b rest } depth) :
    InvAt { s with
      tracker := t
      phase := phase
      chain := rest
      provenance := s.provenance.unwind b rest } depth := by
  have hfull := Sys.full_of_staged_nil hsettled.staged
  have hvalid := hinv.durable.valid
  have hknown := hinv.known
  have hcache := hinv.cache
  rw [hfull, hchain] at hknown hcache
  rw [hchain] at hvalid
  have hfull' : Sys.full { s with
      tracker := t
      phase := phase
      chain := rest
      provenance := s.provenance.unwind b rest } = rest := by
    simp [Sys.full, hsettled.staged]
  refine ⟨hrolled.durable, by rw [hfull']; exact hvalid.2, ?_, ?_, ?_, ?_, hloop⟩
  · rw [hfull', hsettled.staged]
    exact hrolled.durable.fits
  · rw [hfull']
    exact hrolled.known hknown
  · rw [hfull']
    exact (hcache.tail hvalid.1).congr hrolled.outputCache
  · intro k hash hundo hmem
    rw [hfull', hsettled.staged, List.length_nil, Nat.add_zero] at hmem
    have hne : ¬ b.hash = hash := by
      rintro rfl
      exact hvalid.1.hash_notMem_windowOf depth hmem
    have hold := hinv.wrote k hash hundo (by
      rw [hfull, hchain, hsettled.staged, List.length_nil, Nat.add_zero, windowOf_cons_succ]
      exact List.mem_cons_of_mem _ hmem)
    rw [hfull, hchain, blockAt_cons, if_neg hne] at hold
    rw [hfull', hold]
    cases hfound : blockAt rest hash with
    | none => rfl
    | some found =>
        obtain ⟨c, below⟩ := found
        obtain ⟨-, above, habove⟩ := blockAt_eq_some hfound
        exact (unwind_undoRecord hvalid.1 ⟨above, habove.symm⟩ k).symm

theorem Sys.afterRound_of_same (hdeleted : w'.blocksDeleted = w.blocksDeleted) :
    s.afterRound entry w w' t = { s with tracker := t, phase := .walking entry w' } := by
  unfold Sys.afterRound
  cases s.chain with
  | nil => rfl
  | cons b rest => simp [hdeleted]

theorem Sys.afterRound_of_deleted {rest : Chain} (hchain : s.chain = b :: rest)
    {entryDeleted : Int × Hash} (hdeleted : w'.blocksDeleted = w.blocksDeleted ++ [entryDeleted]) :
    s.afterRound entry w w' t =
      { s with
        tracker := t
        phase := .walking entry w'
        chain := rest
        provenance := s.provenance.unwind b rest } := by
  simp [Sys.afterRound, hchain, hdeleted]

/-- **A round of the walk** keeps the invariant; the window shrinks when the tip goes. -/
theorem InvAt.walkNext (hinv : InvAt s depth) (hphase : s.phase = .walking entry w)
    (hround : s.tracker.verifyReorgRound w answers = .next t w') :
    ∃ depth', InvAt (s.afterRound entry w w' t) depth' ∧
      s.chain.length + depth' ≤ (s.afterRound entry w w' t).chain.length + depth := by
  obtain ⟨hsettled, hwalk⟩ := hinv.walking hphase
  have hcases := hinv.round hphase answers
  rw [hround] at hcases
  cases hcases with
  | again hsame _ _ hdeleted hwindow =>
      rw [Sys.afterRound_of_same hdeleted]
      refine ⟨depth, ?_, le_rfl⟩
      refine hinv.sameDurable hsettled rfl rfl rfl hsettled.staged hsame
        ⟨⟨hsettled.staged, hsettled.last⟩, ?_, ?_, ?_⟩
      · rw [hdeleted, hwindow]
        exact hwalk.spent
      · rw [hwindow]
        exact hwalk.budget
      · rw [hdeleted, hwindow]
        exact hwalk.within
  | @rolledBack b rest left σ' w' hchain hdepth hroom _ _ hrolled hdeleted hwindow =>
      subst hdepth
      rw [Sys.afterRound_of_deleted hchain hdeleted]
      refine ⟨left, ?_, by simp [hchain]; omega⟩
      refine hinv.rolledBack hsettled hchain hrolled ⟨⟨hsettled.staged, rfl⟩, ?_, ?_, ?_⟩
      · have := hwalk.spent
        rw [hdeleted, hwindow, List.length_append, List.length_singleton]
        omega
      · rw [hwindow]
        exact hwalk.budget
      · rw [hdeleted, hwindow, List.length_append, List.length_singleton]
        omega

/-- The walk ends, its tip the node's. -/
theorem InvAt.walkReturned (hinv : InvAt s depth) (hphase : s.phase = .walking entry w)
    (hround : s.tracker.verifyReorgRound w answers = .returned t w') :
    InvAt { s with tracker := t, phase := .walked entry } depth := by
  obtain ⟨hsettled, hwalk⟩ := hinv.walking hphase
  have hcases := hinv.round hphase answers
  rw [hround] at hcases
  cases hcases with
  | agreed hchain hanswer =>
      have hdb : (s.tracker.recordReorg w).db = s.tracker.db := by
        unfold recordReorg
        split <;> rfl
      have hlast : (s.tracker.recordReorg w).lastBlocks = s.tracker.lastBlocks := by
        unfold recordReorg
        split <;> rfl
      exact hinv.sameDurable hsettled rfl rfl rfl hsettled.staged (hdb ▸ .refl _)
        ⟨hsettled.staged, hlast.trans hsettled.last⟩

/-- The walk throws. -/
theorem InvAt.walkThrew (hinv : InvAt s depth) (hphase : s.phase = .walking entry w)
    (hround : s.tracker.verifyReorgRound w answers = .threw t w' error) {t' : Tracker}
    (hdb : t'.db = t.db) (hlast : t'.lastBlocks = t.lastBlocks) {phase : Phase}
    (hloop : SettledInv { s with tracker := t', phase := phase } depth →
      LoopInv { s with tracker := t', phase := phase } depth) :
    InvAt { s with tracker := t', phase := phase } depth := by
  obtain ⟨hsettled, hwalk⟩ := hinv.walking hphase
  have hcases := hinv.round hphase answers
  rw [hround] at hcases
  cases hcases with
  | threw hsame =>
      exact hinv.sameDurable hsettled rfl rfl rfl hsettled.staged (hdb ▸ hsame)
        (hloop ⟨hsettled.staged, hlast.trans hsettled.last⟩)

end Walk

/-! ### After the walk -/

theorem InvAt.walked {entry : WalkEntry} (hinv : InvAt s depth) (hphase : s.phase = .walked entry) :
    SettledInv s depth := by
  have hloop := hinv.loop
  rwa [LoopInv, hphase] at hloop

/-- The cursor read back from the store stands on its tip. -/
theorem Durable.reloadCursor {p : Provenance} {chain : Chain}
    (hdurable : Durable p chain depth t.db.db) : CursorInv t.reloadCursor chain where
  index := hdurable.getLastBlockHeight
  hash := by
    intro b hb
    cases chain with
    | nil => cases hb
    | cons c rest =>
        obtain rfl : c = b := by simpa using hb
        exact hdurable.getLastBlockHash

theorem InvAt.finishMismatch (hinv : InvAt s depth) (hphase : s.phase = .walked .mismatch)
    (hrun : s.tracker.reloadCursor.cleanupAgedBlocks = .ok t) :
    InvAt { s with tracker := { t with pendingKMCleanup := [] }, phase := .idle } depth := by
  have hsettled := hinv.walked hphase
  have hlast : s.tracker.reloadCursor.lastBlocks = (windowOf s.chain depth).reverse := hsettled.last
  have hdurable : Durable s.provenance s.chain depth s.tracker.reloadCursor.db.db := hinv.durable
  obtain ⟨σ', hclean, hdurable', hcache, hknown, -, -⟩ :=
    hdurable.cleanupAgedBlocks le_rfl hlast fun hash hmem => Or.inl (by
      rw [hlast]
      exact List.mem_reverse.mpr hmem)
  rw [hclean] at hrun
  obtain rfl := Except.ok.inj hrun
  have hcursor := hinv.durable.reloadCursor
  have hfull := Sys.full_of_staged_nil hsettled.staged
  have hknownInv := hinv.known
  have hcacheInv := hinv.cache
  rw [hfull] at hknownInv hcacheInv
  refine hinv.settle le_rfl rfl rfl rfl hsettled.staged hdurable' (fun script hscript => ?_)
    (hcacheInv.congr hcache)
    (IdleInv.of_settled hsettled.staged ⟨hcursor.index, hcursor.hash⟩ rfl hsettled.last)
  exact hknownInv script (hknown ▸ hscript)

theorem InvAt.finishTipBelow (hinv : InvAt s depth) (hphase : s.phase = .walked .tipBelow) :
    InvAt { s with tracker := s.tracker.reloadCursor, phase := .idle } depth := by
  have hsettled := hinv.walked hphase
  have hcursor := hinv.durable.reloadCursor
  exact hinv.sameDurable hsettled rfl rfl rfl hsettled.staged (.refl _)
    (IdleInv.of_settled hsettled.staged ⟨hcursor.index, hcursor.hash⟩ rfl hsettled.last)

/-! ### Restarting -/

/-- An accepted store is loaded as it stands. -/
theorem Durable.start {p : Provenance} {chain : Chain} {db : Db}
    (hdurable : Durable p chain depth db) (undoBlocks : Nat) :
    Tracker.start db undoBlocks = .ok (Tracker.load db undoBlocks) := by
  unfold Tracker.start
  rw [ensureLayoutVersion_of_stamp hdurable.stamp]
  rfl

/-- A freshly loaded tracker. -/
theorem Durable.load {p : Provenance} {chain : Chain} {db : Db}
    (hdurable : Durable p chain depth db) (undoBlocks : Nat) :
    CursorInv (Tracker.load db undoBlocks) chain ∧
      (Tracker.load db undoBlocks).lastBlocks = (windowOf chain depth).reverse := by
  have hstore : Durable p chain depth (LevelUpStore.createDatabase db).db := hdurable
  refine ⟨⟨hstore.getLastBlockHeight, fun b hb => ?_⟩, hstore.loadLastBlocks⟩
  cases chain with
  | nil => cases hb
  | cons c rest =>
      obtain rfl : c = b := by simpa using hb
      exact hstore.getLastBlockHash

theorem cacheInv_empty {σ : LevelUpStore} {chain : Chain} (hempty : σ.outputCache = ∅) :
    CacheInv σ chain [] := by
  intro o record hget
  simp [hempty] at hget

/-- **A crash and a restart** keep the invariant, whatever the phase. -/
theorem InvAt.restart (hinv : InvAt s depth) {undoBlocks : Nat}
    (hrun : Tracker.start s.db undoBlocks = .ok t) :
    InvAt { s with tracker := t, phase := .idle, staged := [] } depth := by
  rw [hinv.durable.start] at hrun
  obtain rfl := Except.ok.inj hrun
  obtain ⟨hcursor, hlast⟩ := hinv.durable.load undoBlocks
  refine hinv.settle le_rfl rfl rfl rfl rfl hinv.durable (fun script hscript => ?_)
    (cacheInv_empty rfl) (IdleInv.of_settled rfl hcursor rfl hlast)
  simp [Tracker.load, LevelUpStore.createDatabase] at hscript

/-! ### All steps -/

/-- **The step lemma.** The oldest stored block never gets older: what left the window, or was never
in it, does not enter it at the bottom. -/
theorem InvAt.step {s' : Sys} (hinv : InvAt s depth) (hstep : Step s s') :
    ∃ depth', InvAt s' depth' ∧ s.chain.length + depth' ≤ s'.chain.length + depth := by
  cases hstep with
  | stage hphase hvalid hrun =>
      obtain ⟨t', hrun', -, -, hinv'⟩ := hinv.stage hphase hvalid
      rw [hrun'] at hrun
      obtain rfl := Except.ok.inj (Option.some.inj hrun)
      exact ⟨depth, hinv', le_rfl⟩
  | stageFailed hphase hvalid hrun =>
      obtain ⟨t', hrun', -⟩ := hinv.stage hphase hvalid
      rw [hrun'] at hrun
      cases hrun
  | flush hphase hstaged hhash hrun =>
      obtain ⟨hash, t', hhash', hrun', -, -, -, hinv'⟩ := hinv.flush hphase hstaged
      rw [hhash', Option.some.injEq] at hhash
      subst hhash
      rw [hrun'] at hrun
      obtain rfl := Except.ok.inj hrun
      refine ⟨_, hinv', ?_⟩
      rw [List.length_append]
      omega
  | cleanup hphase hrun =>
      obtain ⟨t', hrun', -, -, -, kept, -, hle, -, hinv'⟩ := hinv.cleanup hphase
      rw [hrun'] at hrun
      obtain rfl := Except.ok.inj hrun
      exact ⟨kept, hinv', Nat.add_le_add_left hle _⟩
  | mismatch hphase => exact ⟨depth, hinv.mismatch, le_rfl⟩
  | tipBelow hphase => exact ⟨depth, hinv.tipBelow hphase, le_rfl⟩
  | repair hphase hlast hrun => exact ⟨depth, hinv.repair hphase hlast hrun, le_rfl⟩
  | rollBackToNodeTip hphase hlast hbelow hreload =>
      obtain ⟨hsettled, -⟩ := hinv.recovering hphase
      have hwindow := hinv.durable.loadLastBlocks
      subst hreload
      exact ⟨depth, hinv.sameDurable hsettled rfl rfl rfl hsettled.staged (.refl _)
        ⟨⟨hsettled.staged, hwindow⟩, WalkInv.start
          (Durable.window_length (t := { s.tracker with
            lastBlocks := loadLastBlocksSortedByHeight s.tracker.db }) hinv.durable hwindow) _⟩,
        le_rfl⟩
  | walkNext hphase hround => exact hinv.walkNext hphase hround
  | walkReturned hphase hround => exact ⟨depth, hinv.walkReturned hphase hround, le_rfl⟩
  | walkRefused hphase hround =>
      refine ⟨depth, hinv.walkThrew hphase hround ?_ ?_ id, le_rfl⟩
      · unfold countRefusedWalk
        split <;> rfl
      · unfold countRefusedWalk
        split <;> rfl
  | walkFailed hphase hround hfatal =>
      exact ⟨depth, hinv.walkThrew hphase hround rfl rfl id, le_rfl⟩
  | finishMismatch hphase hrun => exact ⟨depth, hinv.finishMismatch hphase hrun, le_rfl⟩
  | finishTipBelow hphase => exact ⟨depth, hinv.finishTipBelow hphase, le_rfl⟩
  | restart hrun => exact ⟨depth, hinv.restart hrun, le_rfl⟩

theorem Inv.step {s' : Sys} (hinv : Inv s) (hstep : Step s s') : Inv s' := by
  obtain ⟨depth, hinv⟩ := hinv
  obtain ⟨depth', hinv', -⟩ := hinv.step hstep
  exact ⟨depth', hinv'⟩

/-- **The run lemma.** -/
theorem Inv.reachable {init : Sys → Prop} (hinit : ∀ s, init s → Inv s) {s : Sys}
    (hreach : Transition.Reachable init Step s) : Inv s :=
  hreach.invariant hinit fun _ _ hinv hstep => hinv.step hstep

/-- Along a run the oldest stored block never gets older. -/
theorem InvAt.run {s' : Sys} (hinv : InvAt s depth) (hrun : Relation.ReflTransGen Step s s') :
    ∃ depth', InvAt s' depth' ∧ s.chain.length + depth' ≤ s'.chain.length + depth := by
  induction hrun with
  | refl => exact ⟨depth, hinv, le_rfl⟩
  | tail _ hstep ih =>
      obtain ⟨depth₁, hinv₁, hbottom₁⟩ := ih
      obtain ⟨depth₂, hinv₂, hbottom₂⟩ := hinv₁.step hstep
      exact ⟨depth₂, hinv₂, by omega⟩

end UtxoTracker

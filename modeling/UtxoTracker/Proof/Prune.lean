import UtxoTracker.Proof.RollbackStep
/-!
# Pruning aged-out blocks

The cleanup stages deletes alone: the window entry and the recovery records of the queued blocks.
Committed, they shrink the stored window to the in-memory one.
-/

namespace UtxoTracker

open KeyedStore LevelUpStore Provenance

/-- Everything the pruning of one block stages. -/
def pruneOps (db : Db) (blockHash : Hash) : List (Key × WriteOp Value) :=
  (scan db (outDelOps blockHash false)).flatten ++ (scan db (hintDelOps blockHash false)).flatten ++
    [(.storedBlk blockHash, .del)] ++ scan db (BlockIndex.entry blockHash .outBlk) ++
    scan db (BlockIndex.entry blockHash .blkScript) ++
    scan db (BlockIndex.entry blockHash .txBlockRecovery)

section Ops

variable {db : Db} {blockHash : Hash} {k : Key} {op : WriteOp Value}

/-- A recovery record belongs to one of the five per-block families. -/
theorem mem_indexEntries :
    ((k, op) ∈ scan db (BlockIndex.entry blockHash .outBlk) ∨
      (k, op) ∈ scan db (BlockIndex.entry blockHash .blkScript) ∨
      (k, op) ∈ scan db (BlockIndex.entry blockHash .txBlockRecovery)) ↔
    op = .del ∧ (db[k]?).isSome ∧ ((∃ txid idx, k = .outBlk blockHash txid idx) ∨
      (∃ script, k = .blkScript blockHash script) ∨
      ∃ txid, k = .txBlockRecovery blockHash txid) := by
  simp only [mem_scan]
  constructor
  · rintro (⟨k', v, hget, haccept⟩ | ⟨k', v, hget, haccept⟩ | ⟨k', v, hget, haccept⟩) <;>
      cases k' <;> simp [BlockIndex.entry] at haccept <;>
      obtain ⟨rfl, rfl, rfl⟩ := haccept <;> simp [hget]
  · rintro ⟨rfl, hsome, ⟨txid, idx, rfl⟩ | ⟨script, rfl⟩ | ⟨txid, rfl⟩⟩ <;>
      obtain ⟨v, hget⟩ := Option.isSome_iff_exists.mp hsome
    · exact Or.inl ⟨_, v, hget, by simp [BlockIndex.entry]⟩
    · exact Or.inr (Or.inl ⟨_, v, hget, by simp [BlockIndex.entry]⟩)
    · exact Or.inr (Or.inr ⟨_, v, hget, by simp [BlockIndex.entry]⟩)

theorem mem_pruneOps_cases :
    (k, op) ∈ pruneOps db blockHash ↔
      (k, op) ∈ (scan db (outDelOps blockHash false)).flatten ∨
      (k, op) ∈ (scan db (hintDelOps blockHash false)).flatten ∨
      k = .storedBlk blockHash ∧ op = .del ∨
      ((k, op) ∈ scan db (BlockIndex.entry blockHash .outBlk) ∨
        (k, op) ∈ scan db (BlockIndex.entry blockHash .blkScript) ∨
        (k, op) ∈ scan db (BlockIndex.entry blockHash .txBlockRecovery)) := by
  simp only [pruneOps, List.mem_append, List.mem_singleton, Prod.mk.injEq, or_assoc]

theorem mem_pruneOps :
    (k, op) ∈ pruneOps db blockHash ↔
      op = .del ∧ (k = .storedBlk blockHash ∨
        k.undoBlock = some blockHash ∧ (db[k]?).isSome) := by
  rw [mem_pruneOps_cases, mem_indexEntries, mem_outDelOps, mem_hintDelOps]
  simp only [Bool.false_eq_true, false_and, false_or, Prod.mk.injEq]
  cases k with
  | outDel hash script txid idx =>
      simp only [Key.undoBlock, Option.isSome_iff_exists]
      aesop
  | hintDel hash txid idx =>
      simp only [Key.undoBlock, Option.isSome_iff_exists]
      aesop
  | outBlk _ _ _ | blkScript _ _ | txBlockRecovery _ _ =>
      simp [Key.undoBlock]
      tauto
  | storedBlk hash => simp [Key.undoBlock]; tauto
  | _ => simp [Key.undoBlock]

end Ops

/-! ### The batch of the cleanup -/

section Batch

variable {σ σ' : LevelUpStore} {blockHash : Hash}

/-- A batch that holds deletes alone. -/
def OnlyDeletes (σ : LevelUpStore) : Prop := ∀ k value, σ.staged k ≠ some (.put value)

theorem Wrote.onlyDeletes {ops : List (Key × WriteOp Value)} (hopen : σ.Open)
    (hwrote : Wrote σ σ' ops) (hdeletes : OnlyDeletes σ)
    (hops : ∀ k op, (k, op) ∈ ops → op = .del) : OnlyDeletes σ' := by
  intro k value
  rw [hwrote.staged]
  by_cases hmem : (k, .del) ∈ ops
  · rw [hopen.staged_addTransactions_of_mem hmem fun op' hop => hops k op' hop]
    simp
  · rw [hopen.staged_addTransactions_of_notMem fun op hop => hmem (hops k op hop ▸ hop)]
    exact hdeletes k value

theorem wrote_removeIndexOnly (σ : LevelUpStore) (blockHash : Hash) (index : BlockIndex) :
    Wrote σ (σ.removeIndexOnly blockHash index) (scan σ.db (index.entry blockHash)) :=
  Wrote.addTransactions _

theorem wrote_pruneAgedBlockRecords (blockHash : Hash) (hopen : σ.Open)
    (hdeleted : σ.deletedTransactionArray = some ∅)
    (hdeletes : OnlyDeletes σ) :
    Wrote σ (Tracker.pruneAgedBlockRecords σ blockHash) (pruneOps σ.db blockHash) := by
  unfold Tracker.pruneAgedBlockRecords removeCreatedOutputsBlockIndexOnly
    removeOutputScriptsBlockIndexOnly removeTxBlockRecoveryIndexOnly
  have hspent := wrote_processDeletedOutputs hopen blockHash false
    (by simp [hdeleted])
  have hspentDeletes := hspent.onlyDeletes hopen hdeletes fun k op hmem => by
    rcases List.mem_append.mp hmem with hin | hin
    · simp only [mem_outDelOps] at hin
      aesop
    · simp only [mem_hintDelOps] at hin
      aesop
  generalize σ.processDeletedOutputs blockHash false = σ₁ at *
  have htwo := hspent.trans (wrote_removeLastStoredBlock blockHash (hspentDeletes _))
  generalize σ₁.removeLastStoredBlock blockHash = σ₂ at *
  have houtBlk := wrote_removeIndexOnly σ₂ blockHash .outBlk
  rw [htwo.db hopen] at houtBlk
  have hthree := htwo.trans houtBlk
  generalize σ₂.removeIndexOnly blockHash .outBlk = σ₃ at *
  have hblkScript := wrote_removeIndexOnly σ₃ blockHash .blkScript
  rw [hthree.db hopen] at hblkScript
  have hfour := hthree.trans hblkScript
  generalize σ₃.removeIndexOnly blockHash .blkScript = σ₄ at *
  have hrecovery := wrote_removeIndexOnly σ₄ blockHash .txBlockRecovery
  rw [hfour.db hopen] at hrecovery
  exact hfour.trans hrecovery

/-- The loop over the queued blocks. -/
theorem wrote_foldl_prune (hashes : List Hash) (hopen : σ.Open)
    (hdeleted : σ.deletedTransactionArray = some ∅) (hdeletes : OnlyDeletes σ) :
    Wrote σ (hashes.foldl Tracker.pruneAgedBlockRecords σ) (hashes.flatMap (pruneOps σ.db)) := by
  induction hashes generalizing σ with
  | nil => exact Wrote.addTransactions []
  | cons hash rest ih =>
      have hfirst := wrote_pruneAgedBlockRecords hash hopen hdeleted hdeletes
      have hrest := ih (hfirst.isOpen hopen) (hfirst.deletedTransactionArray.trans hdeleted)
        (hfirst.onlyDeletes hopen hdeletes fun k op hmem => (mem_pruneOps.mp hmem).1)
      rw [hfirst.db hopen] at hrest
      rw [List.foldl_cons, List.flatMap_cons]
      exact hfirst.trans hrest

@[simp]
theorem pruneAgedBlockRecords_knownScripts :
    (Tracker.pruneAgedBlockRecords σ blockHash).knownScripts = σ.knownScripts := by
  simp [Tracker.pruneAgedBlockRecords, removeCreatedOutputsBlockIndexOnly,
    removeOutputScriptsBlockIndexOnly, removeTxBlockRecoveryIndexOnly, removeIndexOnly]

theorem foldl_prune_knownScripts (hashes : List Hash) :
    (hashes.foldl Tracker.pruneAgedBlockRecords σ).knownScripts = σ.knownScripts := by
  induction hashes generalizing σ with
  | nil => rfl
  | cons hash rest ih => rw [List.foldl_cons, ih, pruneAgedBlockRecords_knownScripts]

theorem onlyDeletes_beginTransaction : OnlyDeletes σ.beginTransaction := by
  intro k value
  simp

end Batch

/-! ### The cleanup -/

section Cleanup

variable {p : Provenance} {chain : Chain} {depth kept : Nat} {t : Tracker}

/-- Dropping the recovery records of `cleaned` from the record of a chain. -/
theorem record_cleaned {window window' cleaned : List Hash}
    (hwindow : ∀ hash, hash ∈ window' ↔ hash ∈ window ∧ hash ∉ cleaned) (k : Key) :
    p.record chain window' k =
      if ∃ hash ∈ cleaned, k = .storedBlk hash ∨ k.undoBlock = some hash then none
      else p.record chain window k := by
  cases k with
  | storedBlk hash =>
      by_cases hcleaned : hash ∈ cleaned <;> simp [record, hwindow, Key.undoBlock, hcleaned]
  | outDel hash _ _ _ | hintDel hash _ _ | outBlk hash _ _ | blkScript hash _
  | txBlockRecovery hash _ =>
      by_cases hcleaned : hash ∈ cleaned <;>
        simp [record, windowRecord, hwindow, Key.undoBlock, hcleaned]
  | _ => simp [record, Key.undoBlock]

/-- Every key after the cleanup's commit. -/
theorem effective_cleanup (hashes : List Hash) {σ' : LevelUpStore}
    (hwrote : Wrote t.db.beginTransaction σ'
      (hashes.flatMap (pruneOps t.db.db) ++ [(.pendingCleanup, .del)])) (k : Key) :
    σ'.effective k =
      if k = .pendingCleanup ∨ ∃ hash ∈ hashes, k = .storedBlk hash ∨ k.undoBlock = some hash then
        none
      else t.db.db[k]? := by
  have hopen : t.db.beginTransaction.Open := open_beginTransaction
  have hmem : ∀ op, (k, op) ∈ hashes.flatMap (pruneOps t.db.db) ++ [(.pendingCleanup, .del)] ↔
      op = .del ∧ (k = .pendingCleanup ∨ ∃ hash ∈ hashes, k = .storedBlk hash ∨
        k.undoBlock = some hash ∧ (t.db.db[k]?).isSome) := by
    intro op
    simp only [List.mem_append, List.mem_flatMap, mem_pruneOps, List.mem_singleton, Prod.mk.injEq]
    aesop
  have hdb : t.db.beginTransaction.db = t.db.db := rfl
  rw [effective, hwrote.db hopen, hwrote.staged, hdb]
  by_cases hdel : (k, .del) ∈ hashes.flatMap (pruneOps t.db.db) ++ [(.pendingCleanup, .del)]
  · rw [hopen.staged_addTransactions_of_mem hdel fun op hop => ((hmem op).mp hop).1, overlay_del,
      if_pos]
    rcases ((hmem _).mp hdel).2 with hpending | ⟨hash, hin, hkey⟩
    · exact Or.inl hpending
    · exact Or.inr ⟨hash, hin, hkey.imp_right And.left⟩
  · rw [hopen.staged_addTransactions_of_notMem
      (fun op hop => hdel (((hmem op).mp hop).1 ▸ hop)), beginTransaction_staged, overlay_none]
    split
    · next hkey =>
        -- A record that was not there needs no delete.
        by_contra hpresent
        refine hdel ((hmem _).mpr ⟨rfl, hkey.imp_right ?_⟩)
        rintro ⟨hash, hin, hstored | hundo⟩
        · exact ⟨hash, hin, Or.inl hstored⟩
        · exact ⟨hash, hin, Or.inr ⟨hundo, Option.isSome_iff_ne_none.mpr hpresent⟩⟩
    · rfl

theorem mem_toClean {hash : Hash} :
    hash ∈ t.toClean ↔ hash ∈ t.pendingKMCleanup ∧ hash ∉ t.lastBlocks := by
  simp [Tracker.toClean]

theorem windowOf_subset (hle : kept ≤ depth) {hash : Hash} (hmem : hash ∈ windowOf chain kept) :
    hash ∈ windowOf chain depth := by
  rw [windowOf, List.map_take] at hmem ⊢
  exact List.take_subset_take_left _ hle hmem

/-- A shorter window keeps fewer records, and nothing else. -/
theorem Durable.shrink {db db' : Db} (cleaned : List Hash) (hdurable : Durable p chain depth db)
    (hle : kept ≤ depth)
    (hcleaned : ∀ hash, hash ∈ windowOf chain kept ↔
      hash ∈ windowOf chain depth ∧ hash ∉ cleaned)
    (hdb : ∀ k : Key, db'[k]? = if k = .pendingCleanup ∨
      ∃ hash ∈ cleaned, k = .storedBlk hash ∨ k.undoBlock = some hash then none else db[k]?) :
    Durable p chain kept db' where
  valid := hdurable.valid
  fits :=
    { seeded_le := hdurable.fits.seeded_le
      lost_created := hdurable.fits.lost_created
      window_sub := fun _ hmem => mem_windowOf hmem }
  indexes := by
    intro k hmeta
    have hpending : k ≠ .pendingCleanup := by
      rintro rfl
      cases hmeta
    rw [hdb, record_cleaned hcleaned, ← hdurable.indexes k hmeta]
    simp [hpending]
  tip := hdurable.tip.congr (by simp [hdb, Key.undoBlock]) (by simp [hdb, Key.undoBlock])
  stamp := by simp [hdb, Key.undoBlock, hdurable.stamp]
  queue := fun value hget => by
    rw [hdb, if_pos (Or.inl rfl)] at hget
    cases hget
  depth_le := hle.trans hdurable.depth_le

/-- **The cleanup shrinks the stored window to the in-memory one.** -/
theorem Durable.cleanupAgedBlocks (hdurable : Durable p chain depth t.db.db) (hle : kept ≤ depth)
    (hlast : t.lastBlocks = (windowOf chain kept).reverse)
    (haged : ∀ hash ∈ windowOf chain depth, hash ∈ t.lastBlocks ∨ hash ∈ t.pendingKMCleanup) :
    ∃ σ', t.cleanupAgedBlocks = .ok { t with db := σ', pendingKMCleanup := [] } ∧
      Durable p chain kept σ'.db ∧ σ'.outputCache = t.db.outputCache ∧
      σ'.knownScripts = t.db.knownScripts ∧
      (∀ k : Key, k.isMeta = true → k ≠ .pendingCleanup → σ'.db[k]? = t.db.db[k]?) ∧
      σ'.db[Key.pendingCleanup]? =
        if t.pendingKMCleanup = [] then t.db.db[Key.pendingCleanup]? else none := by
  have hmemLast : ∀ hash, hash ∈ t.lastBlocks ↔ hash ∈ windowOf chain kept := by
    intro hash
    rw [hlast, List.mem_reverse]
  by_cases hpending : t.pendingKMCleanup = []
  · -- Nothing is queued, so nothing has left the window.
    have hdepth : depth = kept := by
      refine le_antisymm ?_ hle
      have hsubset : windowOf chain depth ⊆ windowOf chain kept := by
        intro hash hmem
        rcases haged hash hmem with hin | hin
        · exact (hmemLast hash).mp hin
        · rw [hpending] at hin
          cases hin
      have hlength := ((hdurable.valid.windowOf_nodup depth).subperm hsubset).length_le
      rwa [windowOf_length hdurable.depth_le, windowOf_length (hle.trans hdurable.depth_le)]
        at hlength
    refine ⟨t.db, ?_, hdepth ▸ hdurable, rfl, rfl, fun _ _ _ => rfl, by rw [if_pos hpending]⟩
    rw [Tracker.cleanupAgedBlocks, if_pos hpending, ← hpending]
  · have hopen : t.db.beginTransaction.Open := open_beginTransaction
    have hpruned := wrote_foldl_prune t.toClean hopen rfl onlyDeletes_beginTransaction
    have hwrote := hpruned.trans (Wrote.addTransactions [(.pendingCleanup, .del)])
    obtain ⟨σ', hcommit, heffective, -, -, hcache, hscripts⟩ := (hwrote.isOpen hopen).endTransaction
    refine ⟨σ', ?_, ?_, hcache.trans hwrote.outputCache, ?_, fun k hmeta hne => ?_, ?_⟩
    · rw [Tracker.cleanupAgedBlocks, if_neg hpending]
      simp only [bind, Except.bind, addTransactions, List.foldl_cons, List.foldl_nil] at hcommit ⊢
      rw [hcommit]
    · refine hdurable.shrink t.toClean hle (fun hash => ?_) fun k => by
        rw [heffective, effective_cleanup t.toClean hwrote]
      rw [mem_toClean, hmemLast]
      constructor
      · exact fun hkept => ⟨windowOf_subset hle hkept, fun hclean => hclean.2 hkept⟩
      · rintro ⟨hin, hclean⟩
        rcases haged hash hin with hlive | hqueued
        · exact (hmemLast hash).mp hlive
        · by_contra hkept
          exact hclean ⟨hqueued, hkept⟩
    · rw [hscripts, addTransactions_knownScripts, foldl_prune_knownScripts]
      rfl
    · have hplain : ¬ (k = .pendingCleanup ∨
          ∃ hash ∈ t.toClean, k = .storedBlk hash ∨ k.undoBlock = some hash) := by
        rintro (rfl | ⟨hash, -, rfl | hundo⟩)
        · exact hne rfl
        · cases hmeta
        · cases k <;> simp [Key.isMeta, Key.undoBlock] at hmeta hundo
      rw [heffective, effective_cleanup t.toClean hwrote, if_neg hplain]
    · rw [heffective, effective_cleanup t.toClean hwrote, if_pos (Or.inl rfl), if_neg hpending]

end Cleanup

end UtxoTracker

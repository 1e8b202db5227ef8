import UtxoTracker.Lib.Fallible
import UtxoTracker.Proof.RawRows
import UtxoTracker.Safety.UtxoSet
import UtxoTracker.Tracker.Reorg
/-!
# The modelled store refines the one on disk

A store with an open batch simulates the rows and the writes that the code holds. Every scan of a
rollback, of pruning and of the mempool keeps the simulation, and a commit turns it into equal
stores.
-/

namespace UtxoTracker

open KeyedStore ByteString ByteOrder

/-! ### The batch -/

/-- A store with an open batch and what the code has: the rows on disk and the writes staged. -/
structure Simulates (σ : LevelUpStore) (rows : List RawStore.Row) (batch : List RawStore.Op) :
    Prop where
  disk : OnDisk σ.db rows
  typed : Typed σ.db
  opened : σ.Open
  staged : ∀ key : Key, key.WellFormed →
    RawStore.lastOp batch key.bytes = (σ.staged key).map encodeWrite
  keys : ∀ op ∈ batch, ∃ key : Key, key.WellFormed ∧ op.1 = key.bytes
  wellFormed : ∀ key op, σ.staged key = some op → key.WellFormed

namespace Simulates

variable {σ σ' : LevelUpStore} {rows : List RawStore.Row} {batch raw : List RawStore.Op}

/-- A fresh batch. -/
theorem beginTransaction (hdisk : OnDisk σ.db rows) (htyped : Typed σ.db) :
    Simulates σ.beginTransaction rows [] where
  disk := hdisk
  typed := htyped
  opened := LevelUpStore.open_beginTransaction
  staged := fun key _ => by rw [LevelUpStore.beginTransaction_staged]; rfl
  keys := fun op hmem => nomatch hmem
  wellFormed := fun key op hop => by
    rw [LevelUpStore.beginTransaction_staged] at hop
    cases hop

theorem lastOp_append (batch raw : List RawStore.Op) (key : List UInt8) :
    RawStore.lastOp (batch ++ raw) key =
      (RawStore.lastOp raw key).or (RawStore.lastOp batch key) := by
  rw [RawStore.lastOp, List.reverse_append, List.lookup_append]
  rfl

theorem addTransaction (hsim : Simulates σ rows batch) {key : Key} (op : WriteOp Value)
    (hwf : key.WellFormed) :
    Simulates (σ.addTransaction key op) rows (batch ++ [(key.bytes, encodeWrite op)]) where
  disk := by
    rw [hsim.opened.addTransaction_db]
    exact hsim.disk
  typed := by
    rw [hsim.opened.addTransaction_db]
    exact hsim.typed
  opened := hsim.opened.addTransaction key op
  staged := by
    intro other hother
    have hlast : RawStore.lastOp [(key.bytes, encodeWrite op)] other.bytes =
        if key = other then some (encodeWrite op) else none := by
      by_cases heq : key = other
      · rw [if_pos heq, heq]
        simp [RawStore.lastOp]
      · have hne : ¬ other.bytes = key.bytes := fun hbytes =>
          heq (Key.bytes_injective hwf hother hbytes.symm)
        rw [if_neg heq]
        simp [RawStore.lastOp, List.lookup_cons, beq_eq_false_iff_ne.mpr hne]
    rw [lastOp_append, hlast, hsim.opened.addTransaction_staged, hsim.staged other hother]
    split_ifs <;> rfl
  keys := by
    intro entry hmem
    rcases List.mem_append.mp hmem with hmem | hmem
    · exact hsim.keys entry hmem
    · rw [List.mem_singleton.mp hmem]
      exact ⟨key, hwf, rfl⟩
  wellFormed := by
    intro other write hstaged
    rw [hsim.opened.addTransaction_staged] at hstaged
    split_ifs at hstaged with heq
    · exact heq ▸ hwf
    · exact hsim.wellFormed other write hstaged

theorem addTransactions (hsim : Simulates σ rows batch) {ops : List (Key × WriteOp Value)}
    (hwf : ∀ op ∈ ops, op.1.WellFormed) :
    Simulates (σ.addTransactions ops) rows (batch ++ ops.map encodeOp) := by
  induction ops generalizing σ batch with
  | nil =>
      rw [List.map_nil, List.append_nil]
      exact hsim
  | cons entry rest ih =>
      have hhead := hsim.addTransaction entry.2 (hwf entry List.mem_cons_self)
      have hrest := ih hhead fun op hmem => hwf op (List.mem_cons_of_mem _ hmem)
      rw [List.append_assoc] at hrest
      exact hrest

theorem stages (hsim : Simulates σ rows batch) (hstages : StagesRaw σ σ' raw) :
    Simulates σ' rows (batch ++ raw) := by
  obtain ⟨ops, rfl, hwf, rfl⟩ := hstages
  exact hsim.addTransactions hwf

theorem lastOp_filter (batch : List RawStore.Op) (key other : List UInt8) :
    RawStore.lastOp (batch.filter fun op => op.1 ≠ key) other =
      if other = key then none else RawStore.lastOp batch other := by
  rw [RawStore.lastOp, ← List.filter_reverse]
  exact lookup_filter batch.reverse key other

/-- A put of the batch is cancelled, anything else is overwritten by a deletion. -/
theorem removeLastStoredBlock (hsim : Simulates σ rows batch) (blockHash : Hash) :
    Simulates (σ.removeLastStoredBlock blockHash) rows
      (RawStore.removeLastStoredBlock batch (hashText blockHash)) := by
  have hwf : (Key.storedBlk blockHash).WellFormed := trivial
  have hlast := hsim.staged _ hwf
  have hkey : P_STORED_BLK :: ofHex (hashText blockHash) = (Key.storedBlk blockHash).bytes := by
    rw [RawStore.ofHex_hashText_eq]
    rfl
  obtain ⟨staged, harray⟩ := Option.isSome_iff_exists.mp hsim.opened.1
  have hstaged : σ.staged (.storedBlk blockHash) = staged[Key.storedBlk blockHash]? := by
    rw [LevelUpStore.staged, harray, Option.getD_some]
  rw [RawStore.removeLastStoredBlock, RawStore.removeTransactionIfExists, hkey, hlast, hstaged]
  cases hop : staged[Key.storedBlk blockHash]? with
  | none =>
      simp only [LevelUpStore.removeLastStoredBlock, LevelUpStore.removeTransactionIfExists, harray,
        hop]
      exact hsim.addTransaction .del hwf
  | some op =>
      cases op with
      | del =>
          simp only [LevelUpStore.removeLastStoredBlock, LevelUpStore.removeTransactionIfExists,
            harray, hop]
          exact hsim.addTransaction .del hwf
      | put value =>
          have herase (key : Key) : ((some (staged.erase (Key.storedBlk blockHash))).getD ∅)[key]? =
              if Key.storedBlk blockHash = key then none else σ.staged key := by
            rw [LevelUpStore.staged, harray, Option.getD_some, Option.getD_some,
              Std.ExtTreeMap.getElem?_erase]
            simp
          simp only [LevelUpStore.removeLastStoredBlock, LevelUpStore.removeTransactionIfExists,
            harray, hop]
          refine ⟨hsim.disk, hsim.typed, ⟨rfl, hsim.opened.2⟩, ?_, ?_, ?_⟩
          · intro key hkeyWf
            have hcancelled := lastOp_filter batch (Key.storedBlk blockHash).bytes key.bytes
            rw [LevelUpStore.staged, herase]
            by_cases heq : Key.storedBlk blockHash = key
            · rw [if_pos heq]
              rw [if_pos (heq ▸ rfl)] at hcancelled
              exact hcancelled
            · rw [if_neg heq]
              rw [if_neg fun hbytes => heq (Key.bytes_injective hwf hkeyWf hbytes.symm),
                hsim.staged key hkeyWf] at hcancelled
              exact hcancelled
          · intro entry hmem
            exact hsim.keys entry (List.mem_of_mem_filter hmem)
          · intro key op hget
            rw [LevelUpStore.staged] at hget
            rw [herase] at hget
            split_ifs at hget
            exact hsim.wellFormed key op hget

theorem key_of_lastOp (hsim : Simulates σ rows batch) {bytes : List UInt8}
    {op : WriteOp (List UInt8)} (hlast : RawStore.lastOp batch bytes = some op) :
    ∃ key : Key, key.WellFormed ∧ bytes = key.bytes := by
  obtain ⟨before, after, hsplit, -⟩ := List.lookup_eq_some_iff.mp hlast
  have hmem : (bytes, op) ∈ batch := by
    rw [← List.mem_reverse, hsplit]
    simp
  exact hsim.keys _ hmem

/-- **A commit.** The rows with the raw batch written to them are those of the committed store. -/
theorem endTransaction (hsim : Simulates σ rows batch) :
    ∃ σ', σ.endTransaction true = .ok σ' ∧
      ∀ rows', RawStore.Committed rows batch rows' ↔ OnDisk σ'.db rows' := by
  obtain ⟨σ', hend, hdb, -⟩ := hsim.opened.endTransaction
  have hentries : ∀ row, RawStore.Written rows batch row ↔
      ∃ (key : Key) (value : Value), σ'.db[key]? = some value ∧ row = encodeRow (key, value) := by
    intro row
    rw [RawStore.Written]
    constructor
    · intro hrow
      cases hlast : RawStore.lastOp batch row.1 with
      | none =>
          rw [hlast] at hrow
          obtain ⟨key, value, hget, rfl⟩ := (hsim.disk.mem_iff row).mp hrow
          have hwf := hsim.disk.wellFormed key value hget
          have hnone : σ.staged key = none :=
            Option.map_eq_none_iff.mp ((hsim.staged key hwf).symm.trans hlast)
          refine ⟨key, value, ?_, rfl⟩
          rw [hdb, LevelUpStore.effective, hnone, overlay_none, hget]
      | some op =>
          obtain ⟨key, hwf, hkey⟩ := hsim.key_of_lastOp hlast
          rw [hkey] at hlast
          obtain ⟨write, hstaged, hwrite⟩ :=
            Option.map_eq_some_iff.mp ((hsim.staged key hwf).symm.trans hlast)
          rw [hkey, hlast, ← hwrite] at hrow
          cases write with
          | del => cases hrow
          | put value =>
              refine ⟨key, value, ?_, Prod.ext hkey hrow.symm⟩
              rw [hdb, LevelUpStore.effective, hstaged, overlay_put]
    · rintro ⟨key, value, hget, rfl⟩
      rw [hdb, LevelUpStore.effective] at hget
      cases hstaged : σ.staged key with
      | none =>
          rw [hstaged, overlay_none] at hget
          have hlast := hsim.staged key (hsim.disk.wellFormed key value hget)
          rw [hstaged, Option.map_none] at hlast
          rw [encodeRow, hlast]
          exact (hsim.disk.mem_iff _).mpr ⟨key, value, hget, rfl⟩
      | some op =>
          have hlast := hsim.staged key (hsim.wellFormed key op hstaged)
          rw [hstaged, Option.map_some] at hlast
          rw [hstaged] at hget
          cases op with
          | del => cases hget
          | put value' =>
              obtain rfl : value' = value := Option.some.inj hget
              rw [encodeRow, hlast]
              rfl
  have hwf : ∀ (key : Key) (value : Value), σ'.db[key]? = some value → key.WellFormed := by
    intro key value hget
    rw [hdb, LevelUpStore.effective] at hget
    cases hstaged : σ.staged key with
    | some op => exact hsim.wellFormed key op hstaged
    | none =>
        rw [hstaged, overlay_none] at hget
        exact hsim.disk.wellFormed key value hget
  refine ⟨σ', hend, fun rows' => ⟨fun hcommitted => ?_, fun hdisk => ?_⟩⟩
  · exact ⟨hwf, hcommitted.sorted, fun row => (hcommitted.mem_iff row).trans (hentries row)⟩
  · exact ⟨hdisk.sorted, fun row => (hdisk.mem_iff row).trans (hentries row).symm⟩

end Simulates

/-! ### Rolling a block back, and pruning -/

section Batches

variable {t : Tracker} {rows : List RawStore.Row}

/-- No put of an earlier batch is left to restore. -/
theorem processDeletedOutputs_eq {σ : LevelUpStore} (hfresh : σ.deletedTransactionArray = some ∅)
    (blockHash : Hash) (recover : Bool) :
    σ.processDeletedOutputs blockHash recover =
      (σ.processDeletedOutputsInDb blockHash recover false).processDeletedOutputsInDb blockHash
        recover true := by
  simp only [LevelUpStore.processDeletedOutputs, hfresh, Std.ExtTreeMap.getElem?_empty]

theorem StagesRaw.deletedTransactionArray {σ σ' : LevelUpStore} {raw : List RawStore.Op}
    (hstages : StagesRaw σ σ' raw) :
    σ'.deletedTransactionArray = σ.deletedTransactionArray := by
  obtain ⟨ops, rfl, -, -⟩ := hstages
  exact LevelUpStore.addTransactions_deletedTransactionArray ops

namespace Simulates

variable {σ : LevelUpStore} {batch : List RawStore.Op} (blockHash : Hash)

theorem removeOutputScriptsInBlock (hsim : Simulates σ rows batch) :
    Simulates (σ.removeOutputScriptsInBlock blockHash) rows
      (batch ++ RawStore.removeOutputScriptsInBlock rows (hashText blockHash)) := by
  have hstaged := hsim.stages (blkScripts_raw hsim.disk σ rfl blockHash)
  rw [LevelUpStore.removeOutputScriptsInBlock]
  split_ifs
  · exact hstaged
  · exact ⟨hstaged.disk, hstaged.typed, hstaged.opened, hstaged.staged, hstaged.keys,
      hstaged.wellFormed⟩

theorem processDeletedOutputs (hsim : Simulates σ rows batch)
    (hfresh : σ.deletedTransactionArray = some ∅) (recover : Bool) :
    Simulates (σ.processDeletedOutputs blockHash recover) rows
      (batch ++ RawStore.processDeletedOutputsInDb rows (hashText blockHash) recover false ++
        RawStore.processDeletedOutputsInDb rows (hashText blockHash) recover true) := by
  rw [processDeletedOutputs_eq hfresh]
  have houtputs :=
    hsim.stages (processDeletedOutputsInDb_raw hsim.disk σ rfl blockHash recover false)
  exact houtputs.stages (processDeletedOutputsInDb_raw houtputs.disk _ rfl blockHash recover true)

theorem removeCreatedOutputsInBlock (hsim : Simulates σ rows batch) :
    Simulates (σ.removeCreatedOutputsInBlock blockHash) rows
      (batch ++ RawStore.removeCreatedOutputsInBlock rows (hashText blockHash)) :=
  hsim.stages (removeCreatedOutputsInBlock_raw hsim.disk hsim.typed σ rfl blockHash)

theorem deleteBlock (hsim : Simulates σ rows batch) :
    Simulates (σ.deleteBlock blockHash) rows
      (batch ++ RawStore.deleteBlock rows (hashText blockHash)) := by
  have htxs := hsim.stages (deleteTransactionsInBlock_raw hsim.disk hsim.typed σ rfl blockHash)
  have hblock := htxs.addTransaction .del (show (Key.block blockHash).WellFormed from trivial)
  rw [RawStore.deleteBlock, ← List.append_assoc, RawStore.ofHex_hashText_eq]
  exact hblock

theorem removeIndexOnly (hsim : Simulates σ rows batch) (index : LevelUpStore.BlockIndex) :
    Simulates (σ.removeIndexOnly blockHash index) rows
      (batch ++ RawStore.removeIndexOnly rows (indexFamily index) (hashText blockHash)) :=
  hsim.stages (removeIndexOnly_raw hsim.disk σ rfl blockHash index)

end Simulates

theorem removeFromLastBlocks_db {t t' : Tracker} {blockHash : Hash}
    (hremove : t.removeFromLastBlocks blockHash = (t', .ok ())) :
    t'.db = t.db.removeLastStoredBlock blockHash := by
  unfold Tracker.removeFromLastBlocks at hremove
  simp only at hremove
  split_ifs at hremove <;>
    simp only [Prod.mk.injEq, reduceCtorEq, and_false, and_true] at hremove
  all_goals
    rw [← hremove]

theorem simulates_stageRollback (hdisk : OnDisk t.db.db rows) (htyped : Typed t.db.db)
    {lastBlockHash : Hash} {lastBlock : BlockRecord} {t' : Tracker}
    (hstage : t.stageRollback lastBlockHash lastBlock = (t', .ok ())) :
    Simulates t'.db rows
      (RawStore.rollBackTipBlock rows (hashText lastBlockHash) (hashText lastBlock.ph)
        lastBlock.h) := by
  have hscripts := (Simulates.beginTransaction hdisk htyped).removeOutputScriptsInBlock lastBlockHash
  have hfresh : (t.db.beginTransaction.removeOutputScriptsInBlock
      lastBlockHash).deletedTransactionArray = some ∅ := by
    rw [LevelUpStore.removeOutputScriptsInBlock]
    split_ifs <;> exact LevelUpStore.addTransactions_deletedTransactionArray _
  have hdeleted := hscripts.processDeletedOutputs lastBlockHash hfresh true
  have hcreated := hdeleted.removeCreatedOutputsInBlock lastBlockHash
  have hblock := hcreated.deleteBlock lastBlockHash
  have hwindow := hblock.removeLastStoredBlock lastBlockHash
  rw [Tracker.stageRollback] at hstage
  split at hstage
  · next hremove => exact absurd (Prod.mk.inj hstage).2 (by simp)
  · next walked hremove =>
      have hdb : t'.db = (walked.db.setLastBlockHash lastBlock.ph).setLastBlockHeight
          (lastBlock.h - 1) := by rw [← (Prod.mk.inj hstage).1]
      have hwalked := removeFromLastBlocks_db hremove
      simp only at hwalked
      rw [hdb, hwalked, LevelUpStore.setLastBlockHeight, LevelUpStore.setLastBlockHash]
      have hhash := hwindow.addTransaction (.put (.hashText lastBlock.ph))
        (show Key.lastBlockHash.WellFormed from trivial)
      have hheight := hhash.addTransaction (.put (.hexText (lastBlock.h - 1)))
        (show Key.lastBlockHeight.WellFormed from trivial)
      rw [List.append_assoc, List.nil_append, encodeWrite_put, encodeWrite_put, Key.bytes,
        Key.bytes, Value.bytes, Value.bytes, List.singleton_append] at hheight
      rw [RawStore.rollBackTipBlock]
      exact hheight

theorem removeLastStoredBlock_deletedTransactionArray (σ : LevelUpStore) (blockHash : Hash) :
    (σ.removeLastStoredBlock blockHash).deletedTransactionArray = σ.deletedTransactionArray := by
  rw [LevelUpStore.removeLastStoredBlock, LevelUpStore.removeTransactionIfExists]
  cases harray : σ.transactionArray with
  | none => exact LevelUpStore.addTransaction_deletedTransactionArray _ _
  | some staged =>
      dsimp only
      cases staged[Key.storedBlk blockHash]? with
      | none => exact LevelUpStore.addTransaction_deletedTransactionArray _ _
      | some op =>
          cases op with
          | put value => rfl
          | del => exact LevelUpStore.addTransaction_deletedTransactionArray _ _

theorem simulates_pruneAgedBlockRecords {σ : LevelUpStore} {batch : List RawStore.Op}
    (hsim : Simulates σ rows batch) (hfresh : σ.deletedTransactionArray = some ∅)
    (blockHash : Hash) :
    Simulates (Tracker.pruneAgedBlockRecords σ blockHash) rows
        (RawStore.pruneAgedBlockRecords rows batch (hashText blockHash)) ∧
      (Tracker.pruneAgedBlockRecords σ blockHash).deletedTransactionArray = some ∅ := by
  have hdeleted := hsim.processDeletedOutputs blockHash hfresh false
  have hwindow := hdeleted.removeLastStoredBlock blockHash
  have houtputs := hwindow.removeIndexOnly blockHash .outBlk
  have hscripts := houtputs.removeIndexOnly blockHash .blkScript
  refine ⟨hscripts.removeIndexOnly blockHash .txBlockRecovery, ?_⟩
  calc (Tracker.pruneAgedBlockRecords σ blockHash).deletedTransactionArray
      = ((σ.processDeletedOutputs blockHash false).removeLastStoredBlock
          blockHash).deletedTransactionArray := by
        simp only [Tracker.pruneAgedBlockRecords, LevelUpStore.removeCreatedOutputsBlockIndexOnly,
          LevelUpStore.removeOutputScriptsBlockIndexOnly,
          LevelUpStore.removeTxBlockRecoveryIndexOnly, LevelUpStore.removeIndexOnly,
          LevelUpStore.addTransactions_deletedTransactionArray]
    _ = (σ.processDeletedOutputs blockHash false).deletedTransactionArray :=
        removeLastStoredBlock_deletedTransactionArray _ blockHash
    _ = σ.deletedTransactionArray := by
        simp only [processDeletedOutputs_eq hfresh, LevelUpStore.processDeletedOutputsInDb,
          LevelUpStore.addTransactions_deletedTransactionArray]
    _ = some ∅ := hfresh

theorem simulates_prune {σ : LevelUpStore} {batch : List RawStore.Op} (blocks : List Hash)
    (hsim : Simulates σ rows batch) (hfresh : σ.deletedTransactionArray = some ∅) :
    Simulates (blocks.foldl Tracker.pruneAgedBlockRecords σ) rows
      ((blocks.map hashText).foldl (RawStore.pruneAgedBlockRecords rows) batch) := by
  induction blocks generalizing σ batch with
  | nil => exact hsim
  | cons blockHash rest ih =>
      obtain ⟨hhead, hheadFresh⟩ := simulates_pruneAgedBlockRecords hsim hfresh blockHash
      rw [List.map_cons, List.foldl_cons, List.foldl_cons]
      exact ih hhead hheadFresh

theorem simulates_cleanupAgedBlocks (hdisk : OnDisk t.db.db rows) (htyped : Typed t.db.db)
    {t' : Tracker} (hpending : t.pendingKMCleanup ≠ []) (hclean : t.cleanupAgedBlocks = .ok t')
    (rows' : List RawStore.Row) :
    RawStore.Committed rows (RawStore.cleanupAgedBlocks rows (t.toClean.map hashText)) rows' ↔
      OnDisk t'.db.db rows' := by
  have hpruned := simulates_prune t.toClean (Simulates.beginTransaction hdisk htyped) rfl
  have hmarker := hpruned.addTransaction .del (show Key.pendingCleanup.WellFormed from trivial)
  obtain ⟨store, hend, hrows⟩ := hmarker.endTransaction
  rw [Tracker.cleanupAgedBlocks, if_neg hpending] at hclean
  dsimp only at hclean
  rw [hend] at hclean
  have hstore : t'.db = store := by rw [← Except.ok.inj hclean]
  rw [hstore]
  exact hrows rows'

/-- **The modelled store is the one on disk.** Over the rows of a database, rolling a block back and
pruning aged-out blocks as the code does it, byte by byte, commits the rows of the store that the
model commits; deleting a transaction of the mempool stages the same writes; and the reads find the
same blocks and outputs. -/
theorem store_refines_raw_rows {t : Tracker} {rows : List RawStore.Row}
    (hdisk : OnDisk t.db.db rows) (htyped : Typed t.db.db) :
    rows = t.db.db.toList.map encodeRow ∧
    (∀ lastBlockHash lastBlock t', t.stageRollback lastBlockHash lastBlock = (t', .ok ()) →
      ∃ store, t'.db.endTransaction true = .ok store ∧ ∀ rows',
        RawStore.Committed rows (RawStore.rollBackTipBlock rows (hashText lastBlockHash)
          (hashText lastBlock.ph) lastBlock.h) rows' ↔ OnDisk store.db rows') ∧
    (∀ t', t.pendingKMCleanup ≠ [] → t.cleanupAgedBlocks = .ok t' → ∀ rows',
      RawStore.Committed rows (RawStore.cleanupAgedBlocks rows (t.toClean.map hashText)) rows' ↔
        OnDisk t'.db.db rows') ∧
    (∀ σ batch txid, Simulates σ rows batch →
      Simulates (MempoolDiff.deleteInputsByHint σ txid).2 rows
        (batch ++ RawStore.deleteInputsByHint rows (hashText txid)) ∧
      Simulates (MempoolDiff.deleteOutputsByHint σ txid).2 rows
        (batch ++ RawStore.deleteOutputsByHint rows (hashText txid))) ∧
    RawStore.getLastStoredBlocks rows = t.db.getLastStoredBlocks.map hashText ∧
    ∀ script after, (∀ cursor ∈ after, cursor.2 < 2 ^ 32) →
      RawStore.outputsAfter rows (hashText script)
          (after.map fun cursor => (hashText cursor.1, cursor.2)) =
        .ok ((scan t.db.db (outputRowAccept script after)).map rawOutput) := by
  refine ⟨hdisk.eq_toList, fun lastBlockHash lastBlock t' hstage => ?_,
    fun t' hpending hclean => simulates_cleanupAgedBlocks hdisk htyped hpending hclean,
    fun σ batch txid hsim => ⟨?_, ?_⟩, getLastStoredBlocks_raw hdisk t.db rfl,
    outputsAfter_raw hdisk htyped⟩
  · exact (simulates_stageRollback hdisk htyped hstage).endTransaction
  · exact hsim.stages (deleteInputsByHint_raw hsim.disk σ rfl txid)
  · exact hsim.stages (deleteOutputsByHint_raw hsim.disk hsim.typed σ rfl txid)

/-! ### Two blocks at a window of one -/

/-- The value and the height have room in their fields. -/
def fitsOutput (record : OutputRecord) : Prop :=
  record.v < 2 ^ 64 ∧ -2 ^ 31 ≤ record.h ∧ record.h < 2 ^ 31

instance (record : OutputRecord) : Decidable (fitsOutput record) :=
  inferInstanceAs (Decidable (_ ∧ _ ∧ _))

def fitsIdx (idx : Nat) : Prop := idx < 2 ^ 32

instance (idx : Nat) : Decidable (fitsIdx idx) := inferInstanceAs (Decidable (idx < 2 ^ 32))

/-- A key and a value as two blocks leave them. -/
def Key.fits (key : Key) (value : Value) : Bool :=
  match key with
  | .output _ _ idx =>
      match value with
      | .output record => decide (fitsIdx idx ∧ fitsOutput record)
      | _ => false
  | .outHint _ idx | .outBlk _ _ idx =>
      match value with
      | .hash _ => decide (fitsIdx idx)
      | _ => false
  | .txExact _ =>
      match value with
      | .hash _ => true
      | _ => false
  | .tx _ => (decodeTx value).isSome
  | .input _ idx | .inHint _ _ idx | .outDel _ _ _ idx | .hintDel _ _ idx => decide (fitsIdx idx)
  | _ => true

theorem Key.wellFormed_holds_of_fits {key : Key} {value : Value} (hfits : key.fits value = true) :
    key.WellFormed ∧ key.Holds value := by
  cases key with
  | output script txid idx =>
      cases value with
      | output record =>
          obtain ⟨hidx, hrecord⟩ := of_decide_eq_true hfits
          exact ⟨hidx, _, rfl, hrecord⟩
      | _ => cases hfits
  | outHint txid idx | outBlk hash txid idx =>
      cases value with
      | hash script =>
          have hidx : fitsIdx idx := of_decide_eq_true hfits
          exact ⟨hidx, _, rfl⟩
      | _ => cases hfits
  | txExact txid =>
      cases value with
      | hash blockHash => exact ⟨trivial, _, rfl⟩
      | _ => cases hfits
  | tx txid => exact ⟨trivial, Option.isSome_iff_exists.mp hfits⟩
  | input prevTxid idx | inHint txid prevTxid idx | outDel hash script txid idx
  | hintDel hash txid idx =>
      have hidx : fitsIdx idx := of_decide_eq_true hfits
      exact ⟨hidx, trivial⟩
  | _ => exact ⟨trivial, trivial⟩

/-- The rows of a database whose entries all fit. -/
theorem rows_of_fits {db : Db} (hfits : db.toList.all fun entry => entry.1.fits entry.2) :
    OnDisk db (db.toList.map encodeRow) ∧ Typed db := by
  have hentry : ∀ (key : Key) (value : Value), db[key]? = some value → key.fits value = true :=
    fun key value hget =>
      List.all_eq_true.mp hfits _ (Std.ExtTreeMap.mem_toList_iff_getElem?_eq_some.mpr hget)
  exact ⟨.of_toList fun key value hget => (Key.wellFormed_holds_of_fits (hentry key value hget)).1,
    fun key value hget => (Key.wellFormed_holds_of_fits (hentry key value hget)).2⟩

/-- A tracker at a window of one block: the second block can be rolled back, and the first one's
recovery records are due. -/
structure TwoBlocks (t t' : Tracker) (store : LevelUpStore) : Prop where
  fits : t.db.db.toList.all fun entry => entry.1.fits entry.2
  window : t.db.getLastStoredBlocks = [1, 2]
  coins : scan t.db.db (outputRowAccept 7 none) = [⟨101, some 101, 0, 50, 1, true⟩]
  rollback : ∃ t₁, t.stageRollback 2 ⟨1, 20, 1⟩ = (t₁, .ok ()) ∧
    t₁.db.endTransaction true = .ok store
  rolledBackFits : store.db.toList.all fun entry => entry.1.fits entry.2
  rolledBackCoins : scan store.db (outputRowAccept 7 none) = [⟨100, some 100, 0, 50, 0, true⟩]
  pending : t.pendingKMCleanup = [1]
  toClean : t.toClean = [1]
  cleanup : t.cleanupAgedBlocks = .ok t'
  cleanedFits : t'.db.db.toList.all fun entry => entry.1.fits entry.2
  cleanedWindow : t'.db.getLastStoredBlocks = [2]

theorem exists_twoBlocks : ∃ t t' store, TwoBlocks t t' store := by
  obtain ⟨t, ht⟩ : ∃ t, twoBlockTracker 1 = some t := Option.isSome_iff_exists.mp (by decide +kernel)
  have hbefore : (twoBlockTracker 1).map (fun t =>
      (t.db.db.toList.all (fun entry => entry.1.fits entry.2), t.db.getLastStoredBlocks,
        scan t.db.db (outputRowAccept 7 none), t.pendingKMCleanup, t.toClean)) =
      some (true, [1, 2], [⟨101, some 101, 0, 50, 1, true⟩], [1], [1]) := by decide +kernel
  have hrolled : (twoBlockTracker 1).map (fun t =>
      ((t.stageRollback 2 ⟨1, 20, 1⟩).2,
        ((t.stageRollback 2 ⟨1, 20, 1⟩).1.db.endTransaction true).toOption.map fun store =>
          (store.db.toList.all (fun entry => entry.1.fits entry.2),
            scan store.db (outputRowAccept 7 none)))) =
      some (.ok (), some (true, [⟨100, some 100, 0, 50, 0, true⟩])) := by decide +kernel
  have hcleaned : (twoBlockTracker 1).map (fun t => t.cleanupAgedBlocks.toOption.map fun t' =>
      (t'.db.db.toList.all (fun entry => entry.1.fits entry.2), t'.db.getLastStoredBlocks)) =
      some (some (true, [2])) := by decide +kernel
  simp only [ht, Option.map_some, Option.some.injEq, Prod.mk.injEq] at hbefore hrolled hcleaned
  obtain ⟨hfits, hwindow, hcoins, hpending, hclean⟩ := hbefore
  obtain ⟨hstaged, hrolled⟩ := hrolled
  obtain ⟨store, hstore, hrolled⟩ := Option.map_eq_some_iff.mp hrolled
  obtain ⟨t', ht', hcleaned⟩ := Option.map_eq_some_iff.mp hcleaned
  obtain ⟨hrolledFits, hrolledCoins⟩ := Prod.mk.inj hrolled
  obtain ⟨hcleanedFits, hcleanedWindow⟩ := Prod.mk.inj hcleaned
  exact ⟨t, t', store,
    { fits := hfits
      window := hwindow
      coins := hcoins
      rollback := ⟨_, Prod.ext rfl hstaged, Fallible.eq_ok_of_toOption hstore⟩
      rolledBackFits := hrolledFits
      rolledBackCoins := hrolledCoins
      pending := hpending
      toClean := hclean
      cleanup := Fallible.eq_ok_of_toOption ht'
      cleanedFits := hcleanedFits
      cleanedWindow := hcleanedWindow }⟩

/-- The rows of two blocks, read, rolled back by one block and pruned of the other. -/
theorem store_refines_raw_rows_twoBlocks : ∃ rows rolledBack pruned : List RawStore.Row,
    RawStore.getLastStoredBlocks rows = [hashText 1, hashText 2] ∧
    RawStore.outputsAfter rows (hashText 7) none =
      .ok [⟨hashText 101, 0, ⟨"50", 1, some (hashText 101), true⟩⟩] ∧
    RawStore.Committed rows (RawStore.rollBackTipBlock rows (hashText 2) (hashText 1) 1)
      rolledBack ∧
    RawStore.outputsAfter rolledBack (hashText 7) none =
      .ok [⟨hashText 100, 0, ⟨"50", 0, some (hashText 100), true⟩⟩] ∧
    RawStore.Committed rows (RawStore.cleanupAgedBlocks rows [hashText 1]) pruned ∧
    RawStore.getLastStoredBlocks pruned = [hashText 2] := by
  obtain ⟨t, t', store, htwo⟩ := exists_twoBlocks
  obtain ⟨t₁, hstage, hcommit⟩ := htwo.rollback
  obtain ⟨hdisk, htyped⟩ := rows_of_fits htwo.fits
  obtain ⟨hrolledDisk, hrolledTyped⟩ := rows_of_fits htwo.rolledBackFits
  obtain ⟨hprunedDisk, hprunedTyped⟩ := rows_of_fits htwo.cleanedFits
  obtain ⟨-, hrollback, hprune, -, hwindow, hscan⟩ := store_refines_raw_rows hdisk htyped
  obtain ⟨-, -, -, -, -, hrolledScan⟩ :=
    store_refines_raw_rows (t := { t with db := store }) hrolledDisk hrolledTyped
  obtain ⟨-, -, -, -, hprunedWindow, -⟩ := store_refines_raw_rows hprunedDisk hprunedTyped
  obtain ⟨store', hcommit', hrolledBack⟩ := hrollback 2 ⟨1, 20, 1⟩ t₁ hstage
  obtain rfl := Except.ok.inj (hcommit.symm.trans hcommit')
  have hpruned := hprune t' (by rw [htwo.pending]; exact List.cons_ne_nil _ _) htwo.cleanup
  rw [htwo.toClean] at hpruned
  have hnone : ∀ cursor ∈ (none : Option (Hash × Nat)), cursor.2 < 2 ^ 32 :=
    fun _ hmem => absurd hmem (by simp)
  refine ⟨_, _, _, hwindow.trans ?_, (hscan 7 none hnone).trans ?_,
    (hrolledBack _).mpr hrolledDisk, (hrolledScan 7 none hnone).trans ?_,
    (hpruned _).mpr hprunedDisk, hprunedWindow.trans ?_⟩
  · rw [htwo.window]
    rfl
  · rw [htwo.coins]
    rfl
  · rw [htwo.rolledBackCoins]
    rfl
  · rw [htwo.cleanedWindow]
    rfl

end Batches

end UtxoTracker

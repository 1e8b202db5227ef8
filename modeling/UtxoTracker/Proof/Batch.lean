import UtxoTracker.Proof.Durable
import UtxoTracker.Tracker.Apply
/-!
# From the first block of a batch to its commit

A fresh batch on a durable store reads as the store itself, each staged block extends it, and the
commit makes it durable in one write.
-/

namespace UtxoTracker

open KeyedStore LevelUpStore Provenance

variable {p : Provenance} {chain full : Chain} {window : List Hash} {depth : Nat} {b : Block}
  {σ σ' : LevelUpStore}

/-! ### Opening -/

/-- A fresh batch on a durable store. -/
theorem Durable.beginTransaction (hdurable : Durable p chain depth σ.db)
    (hknown : ∀ s ∈ σ.knownScripts, (firstSeen chain s).isSome) (hcache : CacheInv σ chain []) :
    StagedInv p chain chain (windowOf chain depth) σ.beginTransaction where
  isOpen := open_beginTransaction
  suffix := List.suffix_refl chain
  effective := by
    intro k hmeta
    rw [LevelUpStore.effective, beginTransaction_staged, overlay_none]
    exact hdurable.indexes k hmeta
  coins := by
    have hhint : ∀ txid idx, σ.db[Key.outHint txid idx]? = hintValue (p.coins chain ⟨txid, idx⟩) :=
      fun txid idx => hdurable.indexes _ rfl
    have houtput : ∀ script txid idx,
        σ.db[Key.output script txid idx]? = outputValue script (p.coins chain ⟨txid, idx⟩) :=
      fun script txid idx => hdurable.indexes _ rfl
    refine ⟨fun txid idx => ?_, fun script txid idx => ?_, hhint, houtput, ?_, ?_⟩
    · rw [beginTransaction_staged]
      exact hhint txid idx
    · rw [beginTransaction_staged]
      exact houtput script txid idx
    · simp
    · simp
  del_coin := by simp
  known := hknown
  cache := hcache.congr rfl

/-! ### Housekeeping writes -/

/-- A write that leaves every other key alone keeps the batch invariant. -/
theorem StagedInv.housekeeping (hinv : StagedInv p chain full window σ) (hopen : σ'.Open)
    (hdb : σ'.db = σ.db) (hcache : σ'.outputCache = σ.outputCache)
    (hknown : σ'.knownScripts = σ.knownScripts)
    (hstaged : ∀ k : Key, k.isMeta = false → σ'.staged k = σ.staged k)
    (hmeta : ∀ k : Key, k.isMeta = true → σ'.staged k ≠ some .del) :
    StagedInv p chain full window σ' where
  isOpen := hopen
  suffix := hinv.suffix
  effective := by
    intro k hk
    rw [LevelUpStore.effective, hstaged k hk, hdb]
    exact hinv.effective k hk
  coins := by
    have hcoins := hinv.coins
    rw [← hdb] at hcoins
    refine ⟨fun txid idx => ?_, fun script txid idx => ?_, hcoins.dbHint, hcoins.dbOutput,
      fun txid idx value hput => ?_, fun script txid idx value hput => ?_⟩
    · rw [hstaged _ rfl]
      exact hcoins.hint txid idx
    · rw [hstaged _ rfl]
      exact hcoins.output script txid idx
    · rw [hstaged _ rfl] at hput
      exact hcoins.put_hint txid idx value hput
    · rw [hstaged _ rfl] at hput
      exact hcoins.put_output script txid idx value hput
  del_coin := by
    intro k hdel
    cases hk : k.isMeta with
    | true => exact absurd hdel (hmeta k hk)
    | false =>
        rw [hstaged k hk] at hdel
        exact hinv.del_coin k hdel
  known := hknown ▸ hinv.known
  cache := hinv.cache.congr hcache

/-- The batch deletes coins only. -/
theorem StagedInv.meta_not_deleted (hinv : StagedInv p chain full window σ) {k : Key}
    (hmeta : k.isMeta = true) : σ.staged k ≠ some .del := by
  intro hdel
  obtain ⟨txid, idx, -, -, rfl | ⟨script, rfl⟩⟩ := hinv.del_coin k hdel <;> cases hmeta

theorem StagedInv.put_meta (hinv : StagedInv p chain full window σ) {key : Key} {value : Value}
    (hkey : key.isMeta = true) :
    StagedInv p chain full window (σ.addTransaction key (.put value)) := by
  refine hinv.housekeeping (hinv.isOpen.addTransaction _ _) (hinv.isOpen.addTransaction_db _ _)
    (addTransaction_outputCache _ _) (addTransaction_knownScripts _ _) (fun k hk => ?_)
    fun k hk => ?_
  · rw [hinv.isOpen.addTransaction_staged, if_neg]
    rintro rfl
    rw [hkey] at hk
    cases hk
  · rw [hinv.isOpen.addTransaction_staged]
    split
    · simp
    · exact hinv.meta_not_deleted hk

theorem StagedInv.dropDeleted (hinv : StagedInv p chain full window σ) (blocks : List Hash) :
    StagedInv p chain full window (Tracker.dropDeleted σ blocks) := by
  refine hinv.housekeeping ⟨hinv.isOpen.1, ?_⟩ rfl rfl rfl (fun _ _ => rfl)
    fun k hk => hinv.meta_not_deleted hk
  simpa [Tracker.dropDeleted] using hinv.isOpen.2

/-! ### Staging -/

section Stage

variable {t : Tracker}

/-- The store a block is staged on. -/
def stageBase (t : Tracker) : LevelUpStore :=
  if t.blocksQuantity = 0 then t.db.beginTransaction else t.db

/-- The depth of the window once `hash` is on it, over the watermark so far. -/
def pushedMark (t : Tracker) (hash : Hash) : Nat :=
  let window := t.lastBlocks ++ [hash]
  max t.undoWindowWatermark
    (min (window.drop (window.length - t.undoBlocks)).length t.undoBlocks)

/-- What `addToLastBlocks` leaves, on an open batch that holds the block. -/
theorem addToLastBlocks_spec
    (hinv : StagedInv p chain full window (t.db.addLastStoredBlock b.hash)) :
    ∃ σ', t.addToLastBlocks b.hash =
        { t with
          db := σ'
          lastBlocks := (t.lastBlocks ++ [b.hash]).drop ((t.lastBlocks ++ [b.hash]).length
            - t.undoBlocks)
          pendingKMCleanup := t.pendingKMCleanup
            ++ Tracker.agedOut (t.lastBlocks ++ [b.hash]) t.undoBlocks
          undoWindowWatermark := pushedMark t b.hash
          undoWindowWatermarkPersisted := some (pushedMark t b.hash) } ∧
      StagedInv p chain full window σ' ∧ σ'.db = (t.db.addLastStoredBlock b.hash).db ∧
      (∀ k, k ≠ .undoWatermark → σ'.staged k = (t.db.addLastStoredBlock b.hash).staged k) ∧
      σ'.staged .undoWatermark =
        if t.undoWindowWatermarkPersisted = some (pushedMark t b.hash) then
          (t.db.addLastStoredBlock b.hash).staged .undoWatermark
        else some (.put (.decimalText (pushedMark t b.hash))) := by
  have hdropped := hinv.dropDeleted (Tracker.agedOut (t.lastBlocks ++ [b.hash]) t.undoBlocks)
  have hdb : (Tracker.dropDeleted (t.db.addLastStoredBlock b.hash)
      (Tracker.agedOut (t.lastBlocks ++ [b.hash]) t.undoBlocks)).db =
        (t.db.addLastStoredBlock b.hash).db := rfl
  have hstaged : ∀ k, (Tracker.dropDeleted (t.db.addLastStoredBlock b.hash)
      (Tracker.agedOut (t.lastBlocks ++ [b.hash]) t.undoBlocks)).staged k =
        (t.db.addLastStoredBlock b.hash).staged k := fun _ => rfl
  dsimp only [Tracker.addToLastBlocks, Tracker.recordUndoWindowWatermark]
  by_cases hmark : t.undoWindowWatermarkPersisted = some (pushedMark t b.hash)
  · have hmark' := hmark
    dsimp only [pushedMark] at hmark'
    rw [if_pos hmark', if_pos hmark, ← hmark]
    exact ⟨_, rfl, hdropped, hdb, fun k _ => hstaged k, hstaged _⟩
  · have hmark' := hmark
    dsimp only [pushedMark] at hmark'
    rw [if_neg hmark', if_neg hmark]
    refine ⟨_, rfl, hdropped.put_meta rfl, (hdropped.isOpen.addTransaction_db _ _).trans hdb,
      fun k hk => ?_, ?_⟩
    · rw [hdropped.isOpen.addTransaction_staged, if_neg (Ne.symm hk)]
      exact hstaged k
    · rw [hdropped.isOpen.addTransaction_staged, if_pos rfl]
      rfl

/-- What staging `b` over `full` makes of the tracker. -/
structure StagedBlock (p : Provenance) (chain full : Chain) (window : List Hash) (b : Block)
    (t t₁ : Tracker) : Prop where
  inv : StagedInv p chain (b :: full) (b.hash :: window) t₁.db
  db : t₁.db.db = t.db.db
  own : ∀ k : Key, k.undoBlock = some b.hash → t₁.db.getTransactionValue k = p.undoRecord b full k
  housekeeping : ∀ k : Key, k.isMeta = true → k ≠ .undoWatermark →
    t₁.db.staged k = (stageBase t).staged k
  undoBlocks : t₁.undoBlocks = t.undoBlocks
  blocksQuantity : t₁.blocksQuantity = t.blocksQuantity
  lastBlocks : t₁.lastBlocks = (t.lastBlocks ++ [b.hash]).drop
    ((t.lastBlocks ++ [b.hash]).length - t.undoBlocks)
  pending : t₁.pendingKMCleanup =
    t.pendingKMCleanup ++ Tracker.agedOut (t.lastBlocks ++ [b.hash]) t.undoBlocks
  mark : t₁.undoWindowWatermark = pushedMark t b.hash
  persisted : t₁.undoWindowWatermarkPersisted = some (pushedMark t b.hash)
  stagedMark : t₁.db.staged .undoWatermark =
    if t.undoWindowWatermarkPersisted = some (pushedMark t b.hash) then
      (stageBase t).staged .undoWatermark
    else some (.put (.decimalText (pushedMark t b.hash)))

/-- **Staging a valid block** never fails, extends the batch by it, and touches nothing durable. -/
theorem stageBlock_spec (hinv : StagedInv p chain full window (stageBase t))
    (hfits : p.Fits full window) (hvalid : ValidBlock full b) :
    ∃ t₁, t.stageBlock b full.length = .ok t₁ ∧ StagedBlock p chain full window b t t₁ := by
  obtain ⟨σ₄, hrun, hstaged, hdb, hown, hmeta⟩ := hinv.stage hfits hvalid
  obtain ⟨σ', hadd, hinv', hdb', hstaged', hmark⟩ :=
    addToLastBlocks_spec (t := { t with db := σ₄ }) hstaged
  have hbase : (stageBase t).db = t.db.db := by
    unfold stageBase
    split <;> rfl
  have hrun' : ((stageBase t).insertBlock b.hash full.length b.timestamp
      b.prevHash).parseBlockTransactions b.transactions b.hash full.length = .ok σ₄ := hrun
  have hall : t.stageBlock b full.length = .ok ({ t with db := σ₄ }.addToLastBlocks b.hash) := by
    unfold Tracker.stageBlock
    unfold stageBase at hrun'
    simp only [bind, Except.bind, hrun']
  rw [hadd] at hall
  refine ⟨_, hall, hinv', (hdb'.trans hdb).trans hbase, fun k hundo => ?_, fun k hk hne => ?_, rfl,
    rfl, rfl, rfl, rfl, rfl, ?_⟩
  · have hne : k ≠ .undoWatermark := by
      rintro rfl
      cases hundo
    rw [getTransactionValue_eq, hstaged' k hne, hown k hundo]
    cases p.undoRecord b full k <;> rfl
  · rw [hstaged' k hne]
    exact hmeta k hk
  · refine hmark.trans ?_
    rw [hmeta _ rfl]
    rfl

end Stage

/-! ### Committing -/

section Commit

variable {t : Tracker} {rest : Chain}

/-- The store a flush commits. -/
theorem flushStore_spec (hinv : StagedInv p chain full window t.db) (hash : Hash) (height : Int) :
    ∃ σ₂ : LevelUpStore,
      (if t.pendingKMCleanup = [] then (t.db.setLastBlockHeight height).setLastBlockHash hash
        else ((t.db.setLastBlockHeight height).setLastBlockHash hash).addTransaction .pendingCleanup
          (.put (.hashList t.pendingKMCleanup))) = σ₂ ∧
      StagedInv p chain full window σ₂ ∧ σ₂.db = t.db.db ∧ σ₂.outputCache = t.db.outputCache ∧
      σ₂.knownScripts = t.db.knownScripts ∧
      (∀ k, k ≠ .pendingCleanup → σ₂.staged k =
        if k = .lastBlockHash then some (.put (.hashText hash))
        else if k = .lastBlockHeight then some (.put (.hexText height)) else t.db.staged k) ∧
      σ₂.staged .pendingCleanup =
        if t.pendingKMCleanup = [] then t.db.staged .pendingCleanup
        else some (.put (.hashList t.pendingKMCleanup)) := by
  have hheight : StagedInv p chain full window (t.db.setLastBlockHeight height) :=
    hinv.put_meta rfl
  have hhash : StagedInv p chain full window
      ((t.db.setLastBlockHeight height).setLastBlockHash hash) := hheight.put_meta rfl
  have hdb : ((t.db.setLastBlockHeight height).setLastBlockHash hash).db = t.db.db :=
    (hheight.isOpen.addTransaction_db _ _).trans (hinv.isOpen.addTransaction_db _ _)
  have hstaged : ∀ k, ((t.db.setLastBlockHeight height).setLastBlockHash hash).staged k =
      if k = .lastBlockHash then some (.put (.hashText hash))
      else if k = .lastBlockHeight then some (.put (.hexText height)) else t.db.staged k := by
    intro k
    rw [setLastBlockHash, hheight.isOpen.addTransaction_staged, setLastBlockHeight,
      hinv.isOpen.addTransaction_staged]
    simp only [eq_comm]
  refine ⟨_, rfl, ?_⟩
  split
  · refine ⟨hhash, hdb, by simp [setLastBlockHash, setLastBlockHeight],
      by simp [setLastBlockHash, setLastBlockHeight], fun k _ => hstaged k, ?_⟩
    rw [hstaged, if_neg (by simp), if_neg (by simp)]
  · refine ⟨hhash.put_meta rfl, (hhash.isOpen.addTransaction_db _ _).trans hdb,
      by simp [setLastBlockHash, setLastBlockHeight],
      by simp [setLastBlockHash, setLastBlockHeight], fun k hk => ?_, ?_⟩
    · rw [hhash.isOpen.addTransaction_staged, if_neg hk.symm]
      exact hstaged k
    · rw [hhash.isOpen.addTransaction_staged, if_pos rfl]

/-- **The commit** makes the batch durable together with its tip. -/
theorem commitBatch_spec (hinv : StagedInv p chain (b :: rest) (windowOf (b :: rest) depth) t.db)
    (hmeta : ∀ k : Key, k.isMeta = true → k ≠ .undoWatermark → t.db.staged k = none)
    (hfits : p.Fits (b :: rest) (windowOf (b :: rest) depth)) (hvalid : ValidChain (b :: rest))
    (hdepth : depth ≤ (b :: rest).length)
    (hstamp : t.db.db[Key.layoutVersion]? = some (.text "2"))
    (hqueue : QueueWellFormed t.db.db) :
    ∃ σ', t.commitBatch b.hash rest.length = .ok { t with db := σ' } ∧
      Durable p (b :: rest) depth σ'.db ∧ σ'.outputCache = t.db.outputCache ∧
      σ'.knownScripts = t.db.knownScripts ∧
      (∀ k : Key, k ≠ .lastBlockHash → k ≠ .lastBlockHeight → k ≠ .pendingCleanup →
        σ'.db[k]? = t.db.effective k) ∧
      (t.pendingKMCleanup = [] → σ'.db[Key.pendingCleanup]? = t.db.db[Key.pendingCleanup]?) := by
  obtain ⟨σ₂, hstore, hinv₂, hdb₂, hcache₂, hknown₂, hstaged₂, hqueue₂⟩ :=
    flushStore_spec hinv b.hash rest.length
  obtain ⟨σ', hcommit, heffective, -, -, hcache, hscripts⟩ := hinv₂.isOpen.endTransaction
  have hkey : ∀ k, σ'.db[k]? = overlay (σ₂.staged k) t.db.db[k]? := by
    intro k
    rw [heffective, LevelUpStore.effective, hdb₂]
  refine ⟨σ', ?_, ⟨hvalid, hfits, fun k hk => ?_, ⟨?_, ?_⟩, ?_, fun value hget => ?_, hdepth⟩,
    hcache.trans hcache₂,
    hscripts.trans hknown₂, fun k hhash hheight hpending => ?_, fun hnil => ?_⟩
  · unfold Tracker.commitBatch
    simp only [bind, Except.bind, hstore, hcommit]
  · rw [heffective]
    exact hinv₂.effective k hk
  · rw [hkey, hstaged₂ _ (by simp), if_neg (by simp), if_pos rfl, overlay_put]
  · rw [hkey, hstaged₂ _ (by simp), if_pos rfl, overlay_put]
  · rw [hkey, hstaged₂ _ (by simp), if_neg (by simp), if_neg (by simp), hmeta _ rfl (by simp),
      overlay_none]
    exact hstamp
  · rw [hkey, hqueue₂] at hget
    split at hget
    · rw [hmeta _ rfl (by simp), overlay_none] at hget
      exact hqueue value hget
    · next hne =>
        rw [overlay_put, Option.some.injEq] at hget
        exact ⟨_, hne, hget.symm⟩
  · rw [hkey, hstaged₂ k hpending, if_neg hhash, if_neg hheight, LevelUpStore.effective]
  · rw [hkey, hqueue₂, if_pos hnil, hmeta _ rfl (by simp), overlay_none]

end Commit

end UtxoTracker

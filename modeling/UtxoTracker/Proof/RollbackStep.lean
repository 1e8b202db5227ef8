import UtxoTracker.Proof.Rollback
/-!
# One rolled-back block

`rollBackTipBlock` on a durable store whose in-memory window is the stored one. A commit takes the
store to the chain below; a failed commit leaves it as it was and reads the window back.
-/

namespace UtxoTracker

open KeyedStore LevelUpStore Provenance

variable {p : Provenance} {b : Block} {rest : Chain} {depth : Nat} {t : Tracker}

/-- The record under the tip's hash. -/
def tipRecord (b : Block) (rest : Chain) : BlockRecord := ⟨rest.length, b.timestamp, b.prevHash⟩

/-- The scripts still known after the rollback were seen below the block. -/
theorem firstSeen_below {σ : LevelUpStore}
    (hindexes : Indexes p (b :: rest) (b.hash :: windowOf rest depth) σ.db) {s : Hash}
    (hknown : s ∈ if scan σ.db (blkScriptEntry b.hash) = [] then σ.knownScripts else ∅)
    (hseen : ∀ s ∈ σ.knownScripts, (firstSeen (b :: rest) s).isSome) :
    (firstSeen rest s).isSome := by
  split at hknown
  · next hnone =>
      by_contra hbelow
      have habsent : firstSeen rest s = none := by simpa using hbelow
      have hscript : s ∈ b.scripts := by
        by_contra hscript
        have := hseen s hknown
        simp [firstSeen, habsent, hscript] at this
      have hrecord : σ.db[Key.blkScript b.hash s]? = some .empty := by
        rw [hindexes.own_undo rfl, undoRecord, if_pos ⟨hscript, habsent⟩]
      have hmem : s ∈ scan σ.db (blkScriptEntry b.hash) :=
        mem_scan.mpr ⟨_, _, hrecord, by simp [blkScriptEntry]⟩
      rw [hnone] at hmem
      cases hmem
  · simp at hknown

/-- What a rollback of the tip leaves behind, committed. -/
structure RolledBack (p : Provenance) (b : Block) (rest : Chain) (depth : Nat)
    (σ σ' : LevelUpStore) : Prop where
  durable : Durable (p.unwind b rest) rest depth σ'.db
  height : σ'.db[Key.lastBlockHeight]? = some (.hexText (rest.length - 1))
  hash : σ'.db[Key.lastBlockHash]? = some (.hashText b.prevHash)
  outputCache : σ'.outputCache = σ.outputCache
  known : (∀ s ∈ σ.knownScripts, (firstSeen (b :: rest) s).isSome) →
    ∀ s ∈ σ'.knownScripts, (firstSeen rest s).isSome

theorem windowOf_reverse_cons :
    (windowOf (b :: rest) (depth + 1)).reverse = (windowOf rest depth).reverse ++ [b.hash] := by
  rw [windowOf_cons_succ, List.reverse_cons]

/-- The staged rollback of the tip, on a durable store. -/
theorem Durable.stageRollback (hdurable : Durable p (b :: rest) (depth + 1) t.db.db)
    (hlast : t.lastBlocks = (windowOf (b :: rest) (depth + 1)).reverse) :
    ∃ σ', t.stageRollback b.hash (tipRecord b rest) =
        ({ t with lastBlocks := (windowOf rest depth).reverse, db := σ' }, .ok ()) ∧
      Wrote t.db.beginTransaction σ'
        (rollbackOps t.db.beginTransaction b.hash ++ tipOps (tipRecord b rest)) ∧
      σ'.knownScripts =
        if scan t.db.db (blkScriptEntry b.hash) = [] then t.db.knownScripts else ∅ := by
  have hnotMem := hdurable.valid.1.hash_notMem_windowOf depth
  rw [windowOf_reverse_cons] at hlast
  exact stageRollback_eq hlast (by simpa using hnotMem) _

/-- **One committed rollback** takes a durable store to the chain below. -/
theorem Durable.rollBackTipBlock (hdurable : Durable p (b :: rest) (depth + 1) t.db.db)
    (hlast : t.lastBlocks = (windowOf (b :: rest) (depth + 1)).reverse) (retryCount : Nat) :
    ∃ σ', t.rollBackTipBlock b.hash (tipRecord b rest) retryCount true =
        ({ t with lastBlocks := (windowOf rest depth).reverse, db := σ' }, .ok true) ∧
      RolledBack p b rest depth t.db σ' := by
  obtain ⟨σ', hstage, hwrote, hknown⟩ := hdurable.stageRollback hlast
  have hopen : t.db.beginTransaction.Open := open_beginTransaction
  obtain ⟨σ'', hcommit, heffective, -, -, hcache, hscripts⟩ :=
    (hwrote.isOpen hopen).endTransaction
  have hvalid := hdurable.valid
  have hnotMem := hvalid.1.hash_notMem_windowOf depth
  have hindexes : Indexes p (b :: rest) (b.hash :: windowOf rest depth)
      t.db.beginTransaction.db := hdurable.indexes
  have hmeta := fun k => hwrote.effective_rollback_meta (k := k) hopen
    beginTransaction_staged hvalid.1 hindexes
  have hheight : σ''.db[Key.lastBlockHeight]? = some (.hexText (rest.length - 1)) := by
    rw [heffective, hmeta _ rfl]
    simp [tipRecord]
  have hhash : σ''.db[Key.lastBlockHash]? = some (.hashText b.prevHash) := by
    rw [heffective, hmeta _ rfl]
    simp [tipRecord]
  refine ⟨σ'', ?_, ?_, hheight, hhash, hcache.trans hwrote.outputCache, fun hseen s hs => ?_⟩
  · simp only [Tracker.rollBackTipBlock, hstage, if_true, hcommit]
  · refine ⟨hvalid.2, unwind_fits hdurable.fits hvalid.1 hnotMem, fun k hk => ?_, ?_, ?_,
      fun value hget => ?_, Nat.le_of_succ_le_succ hdurable.depth_le⟩
    · rw [heffective, hwrote.effective_rollback hopen beginTransaction_staged hvalid.1 hnotMem
        hindexes hk]
    · cases rest with
      | nil => exact Or.inr ⟨by simpa using hheight, b.prevHash, hhash⟩
      | cons parent below =>
          rw [hvalid.1.linked parent rfl] at hhash
          exact ⟨by simpa using hheight, hhash⟩
    · rw [heffective, hmeta _ rfl]
      exact hdurable.stamp
    · rw [heffective, hmeta _ rfl] at hget
      exact hdurable.queue value hget
  · rw [hscripts, hknown] at hs
    exact firstSeen_below hindexes hs hseen

/-- A rollback whose commit fails changes nothing durable, and the window is the stored one again. -/
theorem Durable.rollBackTipBlock_failed (hdurable : Durable p (b :: rest) (depth + 1) t.db.db)
    (hlast : t.lastBlocks = (windowOf (b :: rest) (depth + 1)).reverse) (retryCount : Nat) :
    ∃ σ' outcome, t.rollBackTipBlock b.hash (tipRecord b rest) retryCount false =
        ({ t with db := σ' }, outcome) ∧
      (outcome = .ok false ∨ ∃ message, outcome = .error (.other message)) ∧
      σ'.db = t.db.db ∧ σ'.outputCache = t.db.outputCache ∧ σ'.knownScripts = ∅ := by
  obtain ⟨σ', hstage, hwrote, -⟩ := hdurable.stageRollback hlast
  have hdb : σ'.discardTransaction.db = t.db.db := hwrote.db open_beginTransaction
  have hload : Tracker.loadLastBlocksSortedByHeight σ'.discardTransaction = t.lastBlocks := by
    rw [hlast]
    exact Durable.loadLastBlocks (hdb ▸ hdurable)
  simp only [Tracker.rollBackTipBlock, hstage, Bool.false_eq_true, if_false, hload]
  split
  · exact ⟨_, _, rfl, Or.inr ⟨_, rfl⟩, hdb, hwrote.outputCache, rfl⟩
  · exact ⟨_, _, rfl, Or.inl rfl, hdb, hwrote.outputCache, rfl⟩

end UtxoTracker

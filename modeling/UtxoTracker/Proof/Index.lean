import UtxoTracker.Proof.StageBlock
/-!
# Indexing refines the reference

After a block is staged, every key of the batch reads as the reference record of the longer chain,
and a commit makes that durable.
-/

namespace UtxoTracker

open KeyedStore LevelUpStore Provenance

variable {p : Provenance} {durable full : Chain} {window : List Hash} {σ σ₂ σ₄ : LevelUpStore}
  {b : Block}

theorem Key.coin_of_isMeta {k : Key} (hmeta : k.isMeta = true) : k.coin = none := by
  cases k <;> first | rfl | cases hmeta

/-- The record of a key that is no coin and no recovery record, on the longer chain. -/
theorem BlockStaged.effective_plain (hinv : StagedInv p durable full window σ)
    (hfits : p.Fits full window) (hafter : AfterOutputs p durable full b σ σ₂)
    (hstaged : BlockStaged p durable full b σ σ₂ σ₄) {k : Key} (hcoin : k.coin = none)
    (hundo : k.undoBlock = none) (hmeta : k.isMeta = false) (hstored : ∀ hash, k ≠ .storedBlk hash) :
    σ₄.effective k = p.record (b :: full) (b.hash :: window) k := by
  have hbefore : overlay (σ.staged k) σ.db[k]? = p.record full window k := hinv.effective k hmeta
  rw [effective, hstaged.unspent k (by simp [hcoin]), hstaged.db]
  cases k with
  | scriptBlk s =>
      rw [← hafter.db]
      exact hafter.scripts.firstSeen s
  | block hash =>
      rw [hafter.staged _ rfl]
      simp only [Block.firstPassValue, putOr, record, blockAt_cons]
      by_cases hhash : b.hash = hash
      · subst hhash
        rw [if_pos rfl, if_pos rfl]
        rfl
      · rw [if_neg (by simpa using hhash), if_neg hhash]
        exact hbefore
  | tx txid =>
      rw [hafter.staged _ rfl, if_neg (by simp)]
      simp only [Block.firstPassValue, record, txBlock_cons]
      by_cases hhas : b.hasTx txid = true
      · simp [hhas, putOr, indexed_live hfits]
      · simp only [hhas]
        exact hbefore
  | txExact txid =>
      rw [hafter.staged _ rfl, if_neg (by simp)]
      simp only [Block.firstPassValue, record, txBlock_cons]
      by_cases hhas : b.hasTx txid = true
      · simp [hhas, putOr, indexed_live hfits]
      · simp only [hhas]
        exact hbefore
  | input _ _ | inHint _ _ _ =>
      rw [hafter.staged _ rfl, if_neg (by simp)]
      exact hbefore
  | storedBlk hash => exact absurd rfl (hstored hash)
  | output _ _ _ | outHint _ _ | outDel _ _ _ _ | hintDel _ _ _ => cases hcoin
  | outBlk _ _ _ | blkScript _ _ | txBlockRecovery _ _ => cases hundo
  | pendingCleanup | undoWatermark | haltMarker | lastBlockHash | lastBlockHeight
  | layoutVersion => cases hmeta

/-- The recovery records, on the longer chain. -/
theorem BlockStaged.effective_undo (hinv : StagedInv p durable full window σ)
    (hfits : p.Fits full window) (hvalid : ValidBlock full b)
    (hafter : AfterOutputs p durable full b σ σ₂)
    (hstaged : BlockStaged p durable full b σ σ₂ σ₄) {k : Key} {hash : Hash}
    (hundo : k.undoBlock = some hash) :
    σ₄.effective k = p.windowRecord (b :: full) (b.hash :: window) hash k := by
  rw [windowRecord_cons]
  by_cases hhash : hash = b.hash
  · subst hhash
    rw [if_pos rfl, effective, hstaged.db, hstaged.own hinv hfits hvalid hafter hundo,
      (hinv.staged_fresh hfits hvalid hundo).2]
    cases p.undoRecord b full k <;> rfl
  · rw [if_neg hhash, effective, hstaged.db, hstaged.other_undo hafter hundo hhash]
    have hmeta : k.isMeta = false := by cases k <;> first | rfl | cases hundo
    refine (hinv.effective k hmeta).trans ?_
    cases k with
    | outDel _ _ _ _ | hintDel _ _ _ | outBlk _ _ _ | blkScript _ _ | txBlockRecovery _ _ =>
        cases hundo
        rfl
    | _ => cases hundo

/-- **The step lemma of indexing.** -/
theorem StagedInv.stage (hinv : StagedInv p durable full window σ) (hfits : p.Fits full window)
    (hvalid : ValidBlock full b) :
    ∃ σ₄, (σ.insertBlock b.hash full.length b.timestamp b.prevHash).parseBlockTransactions
        b.transactions b.hash full.length = .ok σ₄ ∧
      StagedInv p durable (b :: full) (b.hash :: window) (σ₄.addLastStoredBlock b.hash) ∧
      (σ₄.addLastStoredBlock b.hash).db = σ.db ∧
      (∀ k : Key, k.undoBlock = some b.hash →
        (σ₄.addLastStoredBlock b.hash).staged k = (p.undoRecord b full k).map .put) ∧
      ∀ k : Key, k.isMeta = true → (σ₄.addLastStoredBlock b.hash).staged k = σ.staged k := by
  have hafter := hinv.parseOutputs hfits hvalid
  obtain ⟨σ₄, hrun, hstaged⟩ := hafter.removeOutputs hinv hvalid
  have hcommit := hstaged.isOpen.addTransaction_staged (.storedBlk b.hash) (.put .empty)
  have hdb : (σ₄.addLastStoredBlock b.hash).db = σ₄.db := hstaged.isOpen.addTransaction_db _ _
  have heff : ∀ k : Key, (∀ hash, k ≠ .storedBlk hash) →
      (σ₄.addLastStoredBlock b.hash).staged k = σ₄.staged k :=
    fun k hk => (hcommit k).trans (if_neg (hk b.hash).symm)
  refine ⟨σ₄, hrun, ⟨hstaged.isOpen.addTransaction _ _, ?_, fun k hmeta => ?_, ?_, fun k hdel => ?_,
    fun s hs => ?_, ?_⟩, hdb.trans hstaged.db, fun k hundo => ?_, fun k hmeta => ?_⟩
  · exact hinv.suffix.trans (List.suffix_cons b full)
  · by_cases hstored : ∃ hash, k = .storedBlk hash
    · obtain ⟨hash, rfl⟩ := hstored
      rw [LevelUpStore.effective, addLastStoredBlock, hcommit]
      by_cases hhash : hash = b.hash
      · simp [hhash, record]
      · have hbefore : overlay (σ.staged (.storedBlk hash)) σ.db[Key.storedBlk hash]? =
            p.record full window (.storedBlk hash) := hinv.effective _ rfl
        have hne : ¬ b.hash = hash := fun h => hhash h.symm
        have hbase := hdb.trans hstaged.db
        rw [addLastStoredBlock] at hbase
        rw [if_neg (by simpa using hne), hstaged.unspent _ (by simp [Key.coin]),
          hafter.staged _ rfl, if_neg (by simp), hbase]
        simp only [Block.firstPassValue, putOr, hbefore, record, List.mem_cons, hhash, false_or]
    · have hplain : ∀ hash, k ≠ .storedBlk hash := fun hash heq => hstored ⟨hash, heq⟩
      have hsame : (σ₄.addLastStoredBlock b.hash).effective k = σ₄.effective k := by
        rw [LevelUpStore.effective, LevelUpStore.effective, heff k hplain, hdb]
      rw [hsame]
      cases hundo : k.undoBlock with
      | some hash =>
          rw [hstaged.effective_undo hinv hfits hvalid hafter hundo]
          cases k with
          | outDel _ _ _ _ | hintDel _ _ _ | outBlk _ _ _ | blkScript _ _ | txBlockRecovery _ _ =>
              cases hundo
              rfl
          | _ => cases hundo
      | none =>
          cases hcoin : k.coin with
          | none => exact hstaged.effective_plain hinv hfits hafter hcoin hundo hmeta hplain
          | some o =>
              have hview := hstaged.coinView hfits hvalid hafter
              cases k with
              | output script txid idx => exact hview.output script txid idx
              | outHint txid idx => exact hview.hint txid idx
              | outDel _ _ _ _ | hintDel _ _ _ => cases hundo
              | _ => cases hcoin
  · have hview := hstaged.coinView hfits hvalid hafter
    rw [hdb]
    refine ⟨fun txid idx => ?_, fun script txid idx => ?_, hview.dbHint, hview.dbOutput,
      fun txid idx value hput => ?_, fun script txid idx value hput => ?_⟩
    · rw [heff _ (by simp)]
      exact hview.hint txid idx
    · rw [heff _ (by simp)]
      exact hview.output script txid idx
    · rw [heff _ (by simp)] at hput
      exact hview.put_hint txid idx value hput
    · rw [heff _ (by simp)] at hput
      exact hview.put_output script txid idx value hput
  · refine hstaged.del_coin hinv hvalid hafter ?_
    rw [addLastStoredBlock, hcommit] at hdel
    split at hdel
    · cases hdel
    · exact hdel
  · rw [addLastStoredBlock, addTransaction_knownScripts, hstaged.known] at hs
    have hknown := hafter.scripts.known s hs
    rw [hafter.scripts.firstSeen, Option.isSome_map] at hknown
    exact hknown
  · exact hstaged.cache.congr (addTransaction_outputCache _ _)
  · rw [heff k (by rintro hash rfl; cases hundo)]
    exact hstaged.own hinv hfits hvalid hafter hundo
  · rw [heff k (by rintro hash rfl; cases hmeta),
      hstaged.unspent k (by simp [Key.coin_of_isMeta hmeta]),
      hafter.staged k (by cases k <;> first | rfl | cases hmeta)]
    have hvalue : b.firstPassValue full.length k = none := by
      cases k <;> first | rfl | cases hmeta
    rw [hvalue, if_neg (by rintro rfl; cases hmeta), putOr]

end UtxoTracker

import UtxoTracker.Proof.Scans
import UtxoTracker.Proof.Durable
import UtxoTracker.Tracker.Reorg
/-!
# Rolling a block back

The writes a rollback stages are exactly the ones the reference asks for: the recovery records of the
block say what to restore and what to delete. Committing them takes the store to the chain below.
-/

namespace UtxoTracker

open KeyedStore LevelUpStore Provenance

/-! ### The writes the reference asks for -/

/-- Drop what was created, restore what was archived. -/
def undoCoin (created archived : Option Value) : Option (WriteOp Value) :=
  match created with
  | some _ => some .del
  | none => archived.map .put

/-- The write a rollback of `b` owes each key. -/
def rollbackEffect (p : Provenance) (b : Block) (rest : Chain) : Key → Option (WriteOp Value)
  | .output script txid idx =>
      undoCoin (outputValue script (b.created rest.length ⟨txid, idx⟩))
        (outputValue script (p.archived b rest ⟨txid, idx⟩))
  | .outHint txid idx =>
      undoCoin (hintValue (b.created rest.length ⟨txid, idx⟩))
        (hintValue (p.archived b rest ⟨txid, idx⟩))
  | .scriptBlk script => if script ∈ b.scripts ∧ firstSeen rest script = none then some .del else none
  | .tx txid | .txExact txid => if b.hasTx txid then some .del else none
  | .block hash | .storedBlk hash => if hash = b.hash then some .del else none
  | k =>
      if k.undoBlock = some b.hash then (p.undoRecord b rest k).map fun _ => .del else none

/-- Everything a rollback stages before the tip pointer. -/
def rollbackOps (σ : LevelUpStore) (blockHash : Hash) : List (Key × WriteOp Value) :=
  scriptOps σ.db blockHash ++ (scan σ.db (outDelOps blockHash true)).flatten ++
    (scan σ.db (hintDelOps blockHash true)).flatten ++ createdOps σ.db blockHash ++
    (σ.outBlkTxids blockHash).flatMap (σ.deleteTxBlockRecordOps blockHash) ++
    [(.block blockHash, .del), (.storedBlk blockHash, .del)]

section Effect

variable {p : Provenance} {b : Block} {rest : Chain} {window : List Hash} {σ : LevelUpStore}

theorem Indexes.own_undo (hindexes : Indexes p (b :: rest) (b.hash :: window) σ.db) {k : Key}
    (hundo : k.undoBlock = some b.hash) : σ.db[k]? = p.undoRecord b rest k := by
  have hmeta : k.isMeta = false := by cases k <;> first | rfl | cases hundo
  have hrecord : p.record (b :: rest) (b.hash :: window) k =
      p.windowRecord (b :: rest) (b.hash :: window) b.hash k := by
    cases k <;> simp_all [Key.undoBlock, record]
  rw [hindexes k hmeta, hrecord, windowRecord_cons, if_pos rfl]

theorem mem_outBlkTxids_iff (hvalid : ValidBlock rest b)
    (hindexes : Indexes p (b :: rest) (b.hash :: window) σ.db) {txid : Hash} :
    txid ∈ σ.outBlkTxids b.hash ↔ b.hasTx txid = true := by
  rw [mem_outBlkTxids]
  constructor
  · rintro ⟨idx, hsome⟩
    rw [hindexes.own_undo rfl, undoRecord, hintValue, Option.isSome_map] at hsome
    exact Block.hasTx_of_created hsome
  · intro hhas
    refine ⟨0, ?_⟩
    rw [hindexes.own_undo rfl, undoRecord, hintValue, Option.isSome_map]
    exact hvalid.created_zero hhas _

/-- The deletion of `T` and `X` is staged whether or not the block has a `Y` record for them. -/
theorem mem_deleteTxBlockRecordOps (hindexes : Indexes p (b :: rest) (b.hash :: window) σ.db)
    {txid : Hash} (hhas : b.hasTx txid = true) {k : Key} {op : WriteOp Value} :
    (k, op) ∈ σ.deleteTxBlockRecordOps b.hash txid ↔ op = .del ∧
      (k = .tx txid ∨ k = .txExact txid ∨
        p.indexed rest.length = true ∧ k = .txBlockRecovery b.hash txid) := by
  have hrecovery : σ.db[Key.txBlockRecovery b.hash txid]? =
      if p.indexed rest.length = true then some (.hash txid) else none := by
    rw [hindexes.own_undo rfl, undoRecord]
    simp [hhas]
  have htx : p.indexed rest.length = true →
      (σ.db[Key.tx txid]?).bind decodeTx = some b.hash := by
    intro hindexed
    rw [hindexes _ rfl]
    simp [record, txBlock_cons, hhas, hindexed, decodeTx]
  have htxExact : p.indexed rest.length = true →
      (σ.db[Key.txExact txid]?).bind decodeTx = some b.hash := by
    intro hindexed
    rw [hindexes _ rfl]
    simp [record, txBlock_cons, hhas, hindexed, decodeTx]
  unfold deleteTxBlockRecordOps
  rw [hrecovery]
  by_cases hindexed : p.indexed rest.length = true
  · simp only [if_pos hindexed, htx hindexed, htxExact hindexed, if_true]
    simp only [List.cons_append, List.nil_append, List.mem_cons, Prod.mk.injEq, List.not_mem_nil,
      or_false, hindexed, true_and]
    tauto
  · simp only [if_neg hindexed, deleteTransactionOps]
    simp only [List.mem_cons, Prod.mk.injEq, List.not_mem_nil, or_false, hindexed]
    tauto

theorem mem_rollbackOps_cases {blockHash : Hash} {k : Key} {op : WriteOp Value} :
    (k, op) ∈ rollbackOps σ blockHash ↔
      (k, op) ∈ scriptOps σ.db blockHash ∨
      (k, op) ∈ (scan σ.db (outDelOps blockHash true)).flatten ∨
      (k, op) ∈ (scan σ.db (hintDelOps blockHash true)).flatten ∨
      (k, op) ∈ createdOps σ.db blockHash ∨
      (∃ txid ∈ σ.outBlkTxids blockHash, (k, op) ∈ σ.deleteTxBlockRecordOps blockHash txid) ∨
      k = .block blockHash ∧ op = .del ∨ k = .storedBlk blockHash ∧ op = .del := by
  simp only [rollbackOps, List.mem_append, List.mem_flatMap, List.mem_cons, Prod.mk.injEq,
    List.not_mem_nil, or_false, or_assoc]

theorem outputValue_eq_some {script : Hash} {coin : Option NewOutput} {value : Value} :
    outputValue script coin = some value ↔
      ∃ out, coin = some out ∧ out.scriptPubKey = script ∧ value = .output out.record := by
  cases coin with
  | none => simp [outputValue]
  | some out =>
      simp only [outputValue, Option.bind_some, Option.ite_none_right_eq_some, Option.some.injEq,
        exists_eq_left']
      tauto

theorem undoCoin_eq_some {created archived : Option Value} (hexcl : created.isSome → archived = none)
    {op : WriteOp Value} : undoCoin created archived = some op ↔
      (∃ value, archived = some value ∧ op = .put value) ∨ created.isSome ∧ op = .del := by
  cases created with
  | some value =>
      rw [hexcl rfl]
      simp [undoCoin, eq_comm]
  | none => simp [undoCoin, eq_comm]

theorem bind_hintValue_eq_some {script : Hash} {coin : Option NewOutput} :
    (hintValue coin).bind decodeHash = some script ↔ (outputValue script coin).isSome := by
  cases coin with
  | none => simp [hintValue, outputValue]
  | some out => by_cases hscript : out.scriptPubKey = script <;>
      simp [hintValue, outputValue, decodeHash, hscript]

theorem bind_hintValue_isSome {coin : Option NewOutput} :
    ((hintValue coin).bind decodeHash).isSome = coin.isSome := by
  cases coin <;> simp [hintValue, decodeHash]

theorem hintValue_isSome {coin : Option NewOutput} : (hintValue coin).isSome = coin.isSome := by
  rw [hintValue, Option.isSome_map]

/-- **The staged writes of a rollback** are the ones the reference owes each key: no two of them
disagree. -/
theorem mem_rollbackOps (hvalid : ValidBlock rest b)
    (hindexes : Indexes p (b :: rest) (b.hash :: window) σ.db) {k : Key} {op : WriteOp Value} :
    (k, op) ∈ rollbackOps σ b.hash ↔ rollbackEffect p b rest k = some op := by
  have htxids : (∃ txid ∈ σ.outBlkTxids b.hash, (k, op) ∈ σ.deleteTxBlockRecordOps b.hash txid) ↔
      ∃ txid, b.hasTx txid = true ∧ op = .del ∧ (k = .tx txid ∨ k = .txExact txid ∨
        p.indexed rest.length = true ∧ k = .txBlockRecovery b.hash txid) := by
    refine exists_congr fun txid => ?_
    rw [mem_outBlkTxids_iff hvalid hindexes]
    exact and_congr_right fun hhas => mem_deleteTxBlockRecordOps hindexes hhas
  -- A created coin has no archived one: its block put it there first.
  have hexcl : ∀ o, (b.created rest.length o).isSome → p.archived b rest o = none :=
    fun o => archived_of_created hvalid
  have hdel : (WriteOp.del = op) = (op = .del) := propext eq_comm
  rw [mem_rollbackOps_cases, htxids]
  simp only [mem_scriptOps, mem_outDelOps, mem_hintDelOps, mem_createdOps, Prod.mk.injEq,
    hindexes.own_undo (k := .outDel b.hash _ _ _) rfl,
    hindexes.own_undo (k := .hintDel b.hash _ _) rfl,
    hindexes.own_undo (k := .outBlk b.hash _ _) rfl,
    hindexes.own_undo (k := .blkScript b.hash _) rfl, undoRecord]
  cases k with
  | output script txid idx =>
      rw [rollbackEffect, undoCoin_eq_some]
      · simp [bind_hintValue_eq_some]
      · intro hcreated
        cases hout : b.created rest.length ⟨txid, idx⟩ with
        | none => simp [hout, outputValue] at hcreated
        | some out => simp [hexcl ⟨txid, idx⟩ (by simp [hout]), outputValue]
  | outHint txid idx =>
      rw [rollbackEffect, undoCoin_eq_some]
      · simp [bind_hintValue_isSome, ← Option.isSome_iff_exists, hintValue_isSome]
      · intro hcreated
        rw [hintValue_isSome] at hcreated
        simp [hexcl _ hcreated, hintValue]
  | outBlk hash txid idx =>
      simp only [rollbackEffect, Key.undoBlock, undoRecord]
      simp [hdel, bind_hintValue_isSome, ← Option.isSome_iff_exists, hintValue_isSome]
      tauto
  | outDel hash script txid idx | hintDel hash txid idx | blkScript hash script
  | txBlockRecovery hash txid =>
      simp only [rollbackEffect, Key.undoBlock, undoRecord]
      simp [hdel]
      tauto
  | _ => simp [rollbackEffect, Key.undoBlock, hdel]

/-! ### The record below -/

theorem coins_of_created {o : OutPoint} {out : NewOutput}
    (hcreated : b.created rest.length o = some out) :
    p.coins (b :: rest) o = none ∨ p.coins (b :: rest) o = some out := by
  unfold coins
  split
  · exact Or.inl rfl
  · rw [utxo_cons, Ledger.Delta.apply]
    split
    · exact Or.inl rfl
    · exact Or.inr (by simp [Block.delta, hcreated])

theorem coins_of_archived {o : OutPoint} (harchived : (p.archived b rest o).isSome) :
    p.coins (b :: rest) o = none := by
  have hspent : o ∈ b.spent := by
    by_contra hspent
    simp [archived, Block.delta, Ledger.Delta.archive, hspent] at harchived
  have hutxo : utxo (b :: rest) o = none := by
    rw [utxo_cons]
    exact Ledger.Delta.apply_of_mem hspent
  rw [coins, hutxo, ite_self]

theorem overlay_undoCoin_output (hvalid : ValidBlock rest b) (script : Hash) (o : OutPoint) :
    overlay (undoCoin (outputValue script (b.created rest.length o))
      (outputValue script (p.archived b rest o))) (outputValue script (p.coins (b :: rest) o)) =
      outputValue script (coinAfterRollback p b rest o) := by
  unfold coinAfterRollback
  cases hcreated : b.created rest.length o with
  | some out =>
      by_cases hscript : out.scriptPubKey = script
      · simp [hscript, undoCoin]
      · -- Under another script the coin was never there.
        have harchived : p.archived b rest o = none := archived_of_created hvalid (by simp [hcreated])
        rcases coins_of_created (p := p) hcreated with hcoin | hcoin <;>
          simp [undoCoin, harchived, hcoin, hscript]
  | none =>
      cases harchived : p.archived b rest o with
      | none => simp [undoCoin]
      | some out =>
          have hnone : p.coins (b :: rest) o = none := coins_of_archived (by simp [harchived])
          by_cases hscript : out.scriptPubKey = script <;> simp [undoCoin, hnone, hscript]

theorem overlay_undoCoin_hint (o : OutPoint) :
    overlay (undoCoin (hintValue (b.created rest.length o)) (hintValue (p.archived b rest o)))
      (hintValue (p.coins (b :: rest) o)) = hintValue (coinAfterRollback p b rest o) := by
  unfold coinAfterRollback
  cases hcreated : b.created rest.length o with
  | some out => simp [undoCoin]
  | none => cases p.archived b rest o <;> simp [undoCoin]

/-- The recovery records, on the chain below. -/
theorem unwind_windowRecord (hvalid : ValidBlock rest b) {hash : Hash} (hne : hash ≠ b.hash)
    (k : Key) : (p.unwind b rest).windowRecord rest window hash k =
      p.windowRecord (b :: rest) (b.hash :: window) hash k := by
  rw [windowRecord_cons, if_neg hne, windowRecord, windowRecord]
  by_cases hmem : hash ∈ window
  · rw [if_pos hmem, if_pos hmem]
    cases hfound : blockAt rest hash with
    | none => rfl
    | some found =>
        obtain ⟨c, below⟩ := found
        obtain ⟨-, above, habove⟩ := blockAt_eq_some hfound
        exact unwind_undoRecord hvalid ⟨above, habove.symm⟩ k
  · rw [if_neg hmem, if_neg hmem]

theorem windowRecord_eq_record {chain : Chain} {k : Key} {hash : Hash}
    (hundo : k.undoBlock = some hash) :
    p.record chain window k = p.windowRecord chain window hash k := by
  cases k <;> cases hundo <;> rfl

theorem overlay_rollbackEffect_undo (hvalid : ValidBlock rest b) (hnotMem : b.hash ∉ window)
    {k : Key} {hash : Hash} (hundo : k.undoBlock = some hash) :
    overlay (if k.undoBlock = some b.hash then (p.undoRecord b rest k).map fun _ => .del else none)
      (p.record (b :: rest) (b.hash :: window) k) = (p.unwind b rest).record rest window k := by
  rw [windowRecord_eq_record hundo, windowRecord_eq_record hundo, hundo]
  by_cases hhash : hash = b.hash
  · subst hhash
    rw [if_pos rfl, windowRecord_cons, if_pos rfl, windowRecord, if_neg hnotMem]
    cases p.undoRecord b rest k <;> rfl
  · rw [if_neg (by simpa using hhash), unwind_windowRecord hvalid hhash]
    rfl

/-- **Rolling back inverts indexing**: the staged writes of a rollback turn the record of a chain
into the record of the chain below it. -/
theorem overlay_rollbackEffect (hvalid : ValidBlock rest b) (hnotMem : b.hash ∉ window) {k : Key}
    (hmeta : k.isMeta = false) :
    overlay (rollbackEffect p b rest k) (p.record (b :: rest) (b.hash :: window) k) =
      (p.unwind b rest).record rest window k := by
  cases k with
  | outDel _ _ _ _ | hintDel _ _ _ | outBlk _ _ _ | blkScript _ _ | txBlockRecovery _ _ =>
      exact overlay_rollbackEffect_undo hvalid hnotMem rfl
  | output script txid idx =>
      simp only [rollbackEffect, record]
      rw [overlay_undoCoin_output hvalid, coinAfterRollback_eq hvalid]
  | outHint txid idx =>
      simp only [rollbackEffect, record]
      rw [overlay_undoCoin_hint, coinAfterRollback_eq hvalid]
  | scriptBlk script =>
      simp only [rollbackEffect, record, firstSeen]
      cases hseen : firstSeen rest script <;> by_cases hmem : script ∈ b.scripts <;> simp [hmem]
  | block hash =>
      simp only [rollbackEffect, record, blockAt_cons]
      by_cases hhash : hash = b.hash
      · subst hhash
        simp [blockAt_eq_none hvalid.hash_fresh]
      · have hhash' : ¬ b.hash = hash := fun heq => hhash heq.symm
        simp [hhash, hhash']
  | storedBlk hash =>
      simp only [rollbackEffect, record]
      by_cases hhash : hash = b.hash
      · subst hhash
        simp [hnotMem]
      · simp [hhash]
  | tx txid | txExact txid =>
      simp only [rollbackEffect, record, txBlock_cons]
      by_cases hhas : b.hasTx txid = true
      · have habsent : txBlock rest txid = none := by
          obtain ⟨tx, htx, rfl⟩ := Block.hasTx_iff.mp hhas
          exact txBlock_eq_none (hvalid.ids_fresh tx htx)
        simp [hhas, habsent]
      · cases hfound : txBlock rest txid with
        | none => simp [hhas]
        | some found => simp [hhas, unwind_indexed (txBlock_eq_some hfound).2.2]
  | input _ _ | inHint _ _ _ => rfl
  | pendingCleanup | undoWatermark | haltMarker | lastBlockHash | lastBlockHeight
  | layoutVersion => cases hmeta

end Effect

/-! ### The staged batch -/

section Batch

variable {p : Provenance} {b : Block} {rest : Chain} {window before : List Hash}
  {σ : LevelUpStore} {t : Tracker} {record : BlockRecord}

/-- The four store calls of `stageRollback`, in order. -/
theorem wrote_rollback (blockHash : Hash) (hopen : σ.Open)
    (hdeleted : σ.deletedTransactionArray = some ∅) :
    Wrote σ ((((σ.removeOutputScriptsInBlock blockHash).processDeletedOutputs blockHash
        true).removeCreatedOutputsInBlock blockHash).deleteBlock blockHash)
      (scriptOps σ.db blockHash ++ ((scan σ.db (outDelOps blockHash true)).flatten ++
        (scan σ.db (hintDelOps blockHash true)).flatten) ++ createdOps σ.db blockHash ++
        ((σ.outBlkTxids blockHash).flatMap (σ.deleteTxBlockRecordOps blockHash) ++
          [(.block blockHash, .del)])) := by
  have hscripts := wrote_removeOutputScriptsInBlock σ blockHash
  generalize σ.removeOutputScriptsInBlock blockHash = σ₁ at *
  have hdeleted₁ := hscripts.deletedTransactionArray.trans hdeleted
  have hrestored := wrote_processDeletedOutputs (hscripts.isOpen hopen) blockHash true
    (by simp [hdeleted₁])
  rw [hscripts.db hopen] at hrestored
  have htwo := hscripts.trans hrestored
  generalize σ₁.processDeletedOutputs blockHash true = σ₂ at *
  have hcreated := wrote_removeCreatedOutputsInBlock σ₂ blockHash
  rw [htwo.db hopen] at hcreated
  have hthree := htwo.trans hcreated
  generalize σ₂.removeCreatedOutputsInBlock blockHash = σ₃ at *
  have hblock := wrote_deleteBlock σ₃ blockHash
  rw [deleteTransactionsOps_congr (hthree.db hopen)] at hblock
  exact hthree.trans hblock

/-- Rolling back forgets the known scripts as soon as one of the block's own goes. -/
theorem rollback_knownScripts (σ : LevelUpStore) (blockHash : Hash) :
    ((((σ.removeOutputScriptsInBlock blockHash).processDeletedOutputs blockHash
        true).removeCreatedOutputsInBlock blockHash).deleteBlock blockHash).knownScripts =
      if scan σ.db (blkScriptEntry blockHash) = [] then σ.knownScripts else ∅ := by
  simp only [deleteBlock, deleteTransactionsInBlock, removeCreatedOutputsInBlock,
    addTransaction_knownScripts, addTransactions_knownScripts,
    processDeletedOutputs_knownScripts,
    removeOutputScriptsInBlock]
  split <;> simp

/-- The pointer writes that end a rollback. -/
def tipOps (record : BlockRecord) : List (Key × WriteOp Value) :=
  [(.lastBlockHash, .put (.hashText record.ph)), (.lastBlockHeight, .put (.hexText (record.h - 1)))]

/-- Nothing but the window's own step writes an `N` key. -/
theorem rollback_storedBlk_untouched {blockHash hash : Hash} {op : WriteOp Value} :
    (Key.storedBlk hash, op) ∉
      scriptOps σ.db blockHash ++ ((scan σ.db (outDelOps blockHash true)).flatten ++
        (scan σ.db (hintDelOps blockHash true)).flatten) ++ createdOps σ.db blockHash ++
        ((σ.outBlkTxids blockHash).flatMap (σ.deleteTxBlockRecordOps blockHash) ++
          [(.block blockHash, .del)]) := by
  intro hmem
  simp only [List.mem_append, mem_scriptOps, mem_outDelOps, mem_hintDelOps, mem_createdOps,
    List.mem_flatMap, List.mem_singleton, Prod.mk.injEq] at hmem
  rcases hmem with ((h | h) | h) | ⟨_, _, h⟩ | h
  · simp at h
  · simp at h
  · simp at h
  · simpa using mem_deleteTxBlockRecordOps_key h
  · simp at h

/-- A rollback of the window's last block stages its writes and pops the window. -/
theorem stageRollback_eq {blockHash : Hash} (hlast : t.lastBlocks = before ++ [blockHash])
    (hnotMem : blockHash ∉ before) (record : BlockRecord) :
    ∃ σ', t.stageRollback blockHash record =
        ({ t with lastBlocks := before, db := σ' }, .ok ()) ∧
      Wrote t.db.beginTransaction σ'
        (rollbackOps t.db.beginTransaction blockHash ++ tipOps record) ∧
      σ'.knownScripts =
        if scan t.db.db (blkScriptEntry blockHash) = [] then t.db.knownScripts else ∅ := by
  have hopen : t.db.beginTransaction.Open := open_beginTransaction
  have hstored := wrote_rollback blockHash hopen rfl
  have hknown := rollback_knownScripts t.db.beginTransaction blockHash
  dsimp only [Tracker.stageRollback]
  generalize ((((t.db.beginTransaction.removeOutputScriptsInBlock blockHash).processDeletedOutputs
    blockHash true).removeCreatedOutputsInBlock blockHash).deleteBlock blockHash) = σ₁ at *
  have habsent : ∀ value, σ₁.staged (.storedBlk blockHash) ≠ some (.put value) := by
    intro value
    rw [hstored.staged, hopen.staged_addTransactions_of_notMem fun op =>
      rollback_storedBlk_untouched, beginTransaction_staged]
    simp
  have hremoved := wrote_removeLastStoredBlock blockHash habsent
  have hall := (hstored.trans hremoved).trans (Wrote.addTransactions (tipOps record))
  refine ⟨(σ₁.removeLastStoredBlock blockHash).addTransactions (tipOps record), ?_, ?_, ?_⟩
  · simp [Tracker.removeFromLastBlocks, hlast, List.idxOf_append_of_notMem hnotMem]
    rfl
  · simpa [rollbackOps, List.append_assoc] using hall
  · rw [addTransactions_knownScripts, removeLastStoredBlock_knownScripts]
    exact hknown

theorem isMeta_of_mem_tipOps {k : Key} {op : WriteOp Value} (hmem : (k, op) ∈ tipOps record) :
    k.isMeta = true := by
  simp only [tipOps, List.mem_cons, Prod.mk.injEq, List.not_mem_nil, or_false] at hmem
  rcases hmem with ⟨rfl, -⟩ | ⟨rfl, -⟩ <;> rfl

/-- The pointer writes do not meet the others. -/
theorem mem_rollbackOps_tip (hvalid : ValidBlock rest b)
    (hindexes : Indexes p (b :: rest) (b.hash :: window) σ.db) {k : Key} {op : WriteOp Value} :
    (k, op) ∈ rollbackOps σ b.hash ++ tipOps record ↔
      rollbackEffect p b rest k = some op ∨ (k, op) ∈ tipOps record := by
  rw [List.mem_append, mem_rollbackOps hvalid hindexes]

theorem rollbackEffect_meta {k : Key} (hmeta : k.isMeta = true) :
    rollbackEffect p b rest k = none := by
  cases k <;> first | rfl | cases hmeta

theorem Wrote.effective_rollback {σ' : LevelUpStore} (hopen : σ.Open)
    (hempty : ∀ k, σ.staged k = none) (hvalid : ValidBlock rest b) (hnotMem : b.hash ∉ window)
    (hindexes : Indexes p (b :: rest) (b.hash :: window) σ.db)
    (hwrote : Wrote σ σ' (rollbackOps σ b.hash ++ tipOps record)) {k : Key}
    (hmeta : k.isMeta = false) : σ'.effective k = (p.unwind b rest).record rest window k := by
  have hnotTip : ∀ op, (k, op) ∉ tipOps record := by
    intro op hmem
    rw [isMeta_of_mem_tipOps hmem] at hmeta
    cases hmeta
  rw [effective, hwrote.db hopen, hwrote.staged, hindexes k hmeta,
    ← overlay_rollbackEffect hvalid hnotMem hmeta]
  congr 1
  cases heffect : rollbackEffect p b rest k with
  | none =>
      rw [hopen.staged_addTransactions_of_notMem, hempty]
      intro op hmem
      rcases (mem_rollbackOps_tip hvalid hindexes).mp hmem with hin | hin
      · rw [heffect] at hin
        cases hin
      · exact hnotTip op hin
  | some op =>
      refine hopen.staged_addTransactions_of_mem
        ((mem_rollbackOps_tip hvalid hindexes).mpr (Or.inl heffect)) fun op' hmem => ?_
      rcases (mem_rollbackOps_tip hvalid hindexes).mp hmem with hin | hin
      · rw [heffect] at hin
        exact (Option.some.inj hin).symm
      · exact absurd hin (hnotTip op')

theorem Wrote.effective_rollback_meta {σ' : LevelUpStore} (hopen : σ.Open)
    (hempty : ∀ k, σ.staged k = none) (hvalid : ValidBlock rest b)
    (hindexes : Indexes p (b :: rest) (b.hash :: window) σ.db)
    (hwrote : Wrote σ σ' (rollbackOps σ b.hash ++ tipOps record)) {k : Key}
    (hmeta : k.isMeta = true) :
    σ'.effective k =
      if k = .lastBlockHash then some (.hashText record.ph)
      else if k = .lastBlockHeight then some (.hexText (record.h - 1))
      else σ.db[k]? := by
  have hmem : ∀ op, (k, op) ∈ rollbackOps σ b.hash ++ tipOps record ↔ (k, op) ∈ tipOps record := by
    intro op
    rw [mem_rollbackOps_tip hvalid hindexes, rollbackEffect_meta hmeta]
    simp
  rw [effective, hwrote.db hopen, hwrote.staged]
  by_cases hhash : k = .lastBlockHash
  · subst hhash
    rw [hopen.staged_addTransactions_of_mem
      ((hmem (.put (.hashText record.ph))).mpr (by simp [tipOps])) fun op' hop => ?_]
    · simp
    · simpa [tipOps] using (hmem op').mp hop
  by_cases hheight : k = .lastBlockHeight
  · subst hheight
    rw [hopen.staged_addTransactions_of_mem
      ((hmem (.put (.hexText (record.h - 1)))).mpr (by simp [tipOps])) fun op' hop => ?_]
    · simp
    · simpa [tipOps] using (hmem op').mp hop
  rw [if_neg hhash, if_neg hheight, hopen.staged_addTransactions_of_notMem, hempty]
  · rfl
  · intro op hop
    simpa [tipOps, hhash, hheight] using (hmem op).mp hop

end Batch

end UtxoTracker

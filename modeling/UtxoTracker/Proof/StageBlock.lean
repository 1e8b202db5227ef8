import UtxoTracker.Proof.Stage
/-!
# The step lemma of indexing

Both passes together. A valid block is always staged without an error, and the batch then reads as
the reference record of the chain with the block on top.
-/

namespace UtxoTracker

open KeyedStore LevelUpStore Provenance

variable {p : Provenance} {durable full : Chain} {window : List Hash} {σ σ₂ : LevelUpStore}
  {b : Block}

theorem removeInputs_outPoint (b : Block) :
    (removeInputs b.transactions b.hash).map SpentInput.outPoint = b.spent := by
  simp only [removeInputs, Block.spent, List.map_flatMap, List.map_map]
  rfl

theorem removeInputs_blockHash {transactions : List Tx} {blockHash : Hash} {input : SpentInput}
    (hmem : input ∈ removeInputs transactions blockHash) : input.blockHash = blockHash := by
  obtain ⟨tx, -, hinput⟩ := List.mem_flatMap.mp hmem
  obtain ⟨txin, -, rfl⟩ := List.mem_map.mp hinput
  rfl

/-! ### The second pass -/

/-- A coin deleted in this batch is spent, so a valid block does not spend it again. -/
theorem AfterOutputs.hint_not_deleted (hafter : AfterOutputs p durable full b σ σ₂)
    (hinv : StagedInv p durable full window σ) (hvalid : ValidBlock full b) {txid : Hash} {idx : Nat}
    (hspent : ⟨txid, idx⟩ ∈ b.spent) : σ₂.staged (.outHint txid idx) ≠ some .del := by
  intro hdel
  rw [hafter.staged _ rfl, if_neg (by simp)] at hdel
  cases hcreated : b.created full.length ⟨txid, idx⟩ with
  | some out => simp [Block.firstPassValue, hcreated, putOr] at hdel
  | none =>
      simp only [Block.firstPassValue, hcreated, hintValue_none, putOr] at hdel
      obtain ⟨txid', idx', hnone, -, hkey | ⟨script, hkey⟩⟩ := hinv.del_coin _ hdel
      · obtain ⟨rfl, rfl⟩ := Key.outHint.inj hkey
        rcases hvalid.spendable _ hspent with hsome | hsome
        · rw [hcreated] at hsome
          cases hsome
        · rw [hnone] at hsome
          cases hsome
      · cases hkey

/-- **A cached output is the one on disk**, for every coin the lookups find on disk. -/
theorem AfterOutputs.cached_eq (hafter : AfterOutputs p durable full b σ σ₂) {input : SpentInput}
    {out : NewOutput} (hlive : coinsBefore p full b input.outPoint = some out)
    {record : OutputRecord} (hcached : σ₂.outputCache[input.outPoint]? = some record) :
    record = out.record := by
  have hever : everCreated (b :: full) input.outPoint = some out := by
    rw [everCreated_cons]
    rw [coinsBefore] at hlive
    cases hcreated : b.created full.length input.outPoint with
    | some created => simpa [hcreated] using hlive
    | none =>
        rw [hcreated, Option.none_or] at hlive
        rw [Option.none_or]
        exact everCreated_of_coins hlive
  rcases hafter.cache _ _ hcached with ⟨out', hmem, -⟩ | ⟨-, hrecord⟩
  · cases hmem
  · exact hrecord out hever

/-- The lookups find what the reference says they should. -/
theorem AfterOutputs.lookups (hafter : AfterOutputs p durable full b σ σ₂)
    (hinv : StagedInv p durable full window σ) (hvalid : ValidBlock full b) {input : SpentInput}
    (hspent : input.outPoint ∈ b.spent) {found : Resolved}
    (hfound : LookupOf σ₂ input (σ₂.hintLookup input) found) :
    found = expectedFound (coinsBefore p full b) (p.coins durable) input.outPoint := by
  unfold expectedFound
  cases hlive : coinsBefore p full b input.outPoint with
  | none =>
      rw [hintLookup_missing hafter.coins hlive
        (hafter.hint_not_deleted hinv hvalid hspent)] at hfound
      exact hfound
  | some out =>
      rw [hintLookup_eq hafter.coins hlive] at hfound
      by_cases hdurable : p.coins durable input.outPoint = none
      · rw [if_pos hdurable] at hfound
        simp only [if_pos hdurable]
        exact hfound
      · rw [if_neg hdurable] at hfound
        simp only [if_neg hdurable]
        rcases hfound with ⟨record, hcached, rfl⟩ | hdisk
        · rw [hafter.cached_eq hlive hcached]
        · rw [hdisk]
          rcases hafter.coins.staged_or_durable hlive with ⟨-, -, hnone⟩ | ⟨-, -, -, hdb⟩
          · exact absurd hnone hdurable
          · exact congrArg _ hdb

/-- What a staged block leaves in the batch. -/
structure BlockStaged (p : Provenance) (durable full : Chain) (b : Block)
    (σ σ₂ σ₄ : LevelUpStore) : Prop where
  isOpen : σ₄.Open
  db : σ₄.db = σ.db
  unspent : ∀ k : Key, (∀ o ∈ b.spent, k.coin ≠ some o) → σ₄.staged k = σ₂.staged k
  spent : ∀ o ∈ b.spent, ∃ input : SpentInput, input.outPoint = o ∧ input.blockHash = b.hash ∧
    ∀ k : Key, k.coin = some o → σ₄.staged k = spendStep full.length input
      (expectedFound (coinsBefore p full b) (p.coins durable) o) σ₂.staged k
  cache : CacheInv σ₄ (b :: full) []
  known : σ₄.knownScripts = σ₂.knownScripts

theorem BlockStaged.unspent_coin {σ₄ : LevelUpStore} (hstaged : BlockStaged p durable full b σ σ₂ σ₄)
    {k : Key} {o : OutPoint} (hcoin : k.coin = some o) (hspent : o ∉ b.spent) :
    σ₄.staged k = σ₂.staged k := by
  refine hstaged.unspent k fun o' ho' heq => ?_
  rw [hcoin, Option.some.injEq] at heq
  exact hspent (heq ▸ ho')

/-- **The second pass** never fails, and each spend finds its coin. -/
theorem AfterOutputs.removeOutputs (hafter : AfterOutputs p durable full b σ σ₂)
    (hinv : StagedInv p durable full window σ) (hvalid : ValidBlock full b) :
    ∃ σ₄, σ₂.removeOutputsWithInputsBatch (removeInputs b.transactions b.hash) = .ok σ₄ ∧
      BlockStaged p durable full b σ σ₂ σ₄ := by
  have hmem : ∀ input ∈ removeInputs b.transactions b.hash, input.outPoint ∈ b.spent :=
    fun input hinput => removeInputs_outPoint b ▸ List.mem_map_of_mem hinput
  obtain ⟨⟨cache, hstore, hsub⟩, hfst, hfound⟩ := outputLookups_spec
    ((removeInputs b.transactions b.hash).map fun input => (input, σ₂.hintLookup input)) σ₂
  rw [List.map_map] at hfst
  have hfst' : (outputLookups ((removeInputs b.transactions b.hash).map fun input =>
      (input, σ₂.hintLookup input)) σ₂).2.map Prod.fst = removeInputs b.transactions b.hash := by
    rw [hfst]
    exact List.map_id _
  generalize hlook : outputLookups ((removeInputs b.transactions b.hash).map fun input =>
    (input, σ₂.hintLookup input)) σ₂ = looked at hstore hfst' hfound
  obtain ⟨σ₃, resolved⟩ := looked
  simp only at hstore hfst' hfound ⊢
  subst hstore
  have hinputs : ∀ entry ∈ resolved, entry.1 ∈ removeInputs b.transactions b.hash :=
    fun entry hentry => hfst' ▸ List.mem_map_of_mem hentry
  have hexpected : ∀ entry ∈ resolved, entry.2 =
      expectedFound (coinsBefore p full b) (p.coins durable) entry.1.outPoint := by
    intro entry hentry
    obtain ⟨hint, hhint, hlookup⟩ := hfound entry hentry
    obtain ⟨input, -, heq⟩ := List.mem_map.mp hhint
    obtain ⟨rfl, rfl⟩ := Prod.mk.inj heq
    exact hafter.lookups hinv hvalid (hmem _ (hinputs entry hentry)) hlookup
  have hready : ∀ entry ∈ resolved, Ready { σ₂ with outputCache := cache } entry.1 entry.2 := by
    intro entry hentry script hscript
    rw [hexpected entry hentry, expectedFound] at hscript
    cases hlive : coinsBefore p full b entry.1.outPoint with
    | none => simp [hlive] at hscript
    | some out =>
        rw [hlive] at hscript
        by_cases hdurable : p.coins durable entry.1.outPoint = none
        · simp only [if_pos hdurable, Resolved.inMem.injEq] at hscript
          subst hscript
          rcases hafter.coins.staged_or_durable hlive with ⟨hH, hO, -⟩ | ⟨-, -, hdb, -⟩
          · refine ⟨fun hnone => ?_, out.record, hO⟩
            have hboth := hH.symm.trans hnone
            cases hboth
          · rw [hafter.coins.dbHint] at hdb
            rw [SpentInput.outPoint] at hdurable
            rw [hdurable] at hdb
            cases hdb
        · simp [if_neg hdurable] at hscript
  have hblock : ({ σ₂ with outputCache := cache } : LevelUpStore).spendBlockHeightInBatch b.hash =
      some (full.length : Int) := by
    have hstaged : σ₂.staged (.block b.hash) = some (.put (b.record full.length)) := by
      rw [hafter.staged _ rfl, if_pos rfl]
      rfl
    have hvalue : ({ σ₂ with outputCache := cache } : LevelUpStore).getTransactionValue
        (.block b.hash) = some (b.record full.length) := by
      rw [getTransactionValue_eq]
      rw [show ({ σ₂ with outputCache := cache } : LevelUpStore).staged (.block b.hash) = _ from
        hstaged]
    rw [spendBlockHeightInBatch, hvalue]
    rfl
  have hnodup : (resolved.map fun entry => entry.1.outPoint).Nodup := by
    have hmap : (resolved.map fun entry => entry.1.outPoint) = b.spent := by
      rw [← removeInputs_outPoint, ← hfst', List.map_map]
      rfl
    rw [hmap]
    exact hvalid.spent_nodup
  obtain ⟨σ₄, hspends, hopen₄, hbase₄, hframe₄, hspent₄⟩ := stageSpends_spec resolved hnodup
    (fun entry hentry => removeInputs_blockHash (hinputs entry hentry))
    (show ({ σ₂ with outputCache := cache } : LevelUpStore).Open from hafter.isOpen) hready hblock
  have hrun : σ₂.removeOutputsWithInputsBatch (removeInputs b.transactions b.hash) = .ok σ₄ := by
    simp only [removeOutputsWithInputsBatch, hlook]
    exact hspends
  refine ⟨σ₄, hrun, hopen₄, hbase₄.db.trans hafter.db, ?_, ?_, ?_, hbase₄.knownScripts⟩
  · intro k hk
    exact hframe₄ k fun entry hentry => hk _ (hmem _ (hinputs entry hentry))
  · intro o ho
    rw [← removeInputs_outPoint, ← hfst', List.map_map] at ho
    obtain ⟨entry, hentry, rfl⟩ := List.mem_map.mp ho
    refine ⟨entry.1, rfl, removeInputs_blockHash (hinputs entry hentry), fun k hk => ?_⟩
    rw [hspent₄ entry hentry k hk, hexpected entry hentry]
    rfl
  · intro o record hget
    rw [hbase₄.outputCache] at hget
    exact hafter.cache o record (hsub o record hget)

/-! ### The batch after the block -/

theorem StagedInv.staged_fresh (hinv : StagedInv p durable full window σ)
    (hfits : p.Fits full window) (hvalid : ValidBlock full b) {k : Key}
    (hundo : k.undoBlock = some b.hash) : σ.staged k = none ∧ σ.db[k]? = none := by
  have hmeta : k.isMeta = false := by cases k <;> first | rfl | cases hundo
  have hrecord : p.record full window k = none := by
    cases k with
    | outDel _ _ _ _ | hintDel _ _ _ | outBlk _ _ _ | blkScript _ _ | txBlockRecovery _ _ =>
        cases hundo
        exact windowRecord_fresh hfits hvalid _
    | _ => cases hundo
  have hnone := hinv.effective k hmeta
  rw [hrecord, LevelUpStore.effective] at hnone
  cases hop : σ.staged k with
  | none =>
      rw [hop, overlay_none] at hnone
      exact ⟨rfl, hnone⟩
  | some op =>
      cases op with
      | put value => simp [hop] at hnone
      | del =>
          obtain ⟨txid, idx, -, -, rfl | ⟨script, rfl⟩⟩ := hinv.del_coin k hop <;> cases hundo

section Final

variable {σ₄ : LevelUpStore} (hinv : StagedInv p durable full window σ)
  (hfits : p.Fits full window) (hvalid : ValidBlock full b)
  (hafter : AfterOutputs p durable full b σ σ₂) (hstaged : BlockStaged p durable full b σ σ₂ σ₄)

include hinv hfits hvalid hafter hstaged

/-- **The recovery records a block writes** are the reference's. -/
theorem BlockStaged.own {k : Key} (hundo : k.undoBlock = some b.hash) :
    σ₄.staged k = (p.undoRecord b full k).map .put := by
  have hfresh := (hinv.staged_fresh hfits hvalid hundo).1
  have hput : ∀ value : Option Value, putOr value none = value.map .put := by
    intro value
    cases value <;> rfl
  cases k with
  | outDel hash script txid idx =>
      obtain rfl : hash = b.hash := by simpa [Key.undoBlock] using hundo
      have hbefore : σ₂.staged (.outDel b.hash script txid idx) = none := by
        rw [hafter.staged _ rfl, if_neg (by simp), hfresh]
        rfl
      simp only [undoRecord, archived_live hfits]
      by_cases hspent : ⟨txid, idx⟩ ∈ b.spent
      · obtain ⟨input, hinput, hhash, hstep⟩ := hstaged.spent _ hspent
        obtain ⟨rfl, rfl⟩ := OutPoint.mk.inj hinput
        have hkey : Key.outDel b.hash script input.prevTxHash input.prevOutputIndex =
            input.kKey script := by rw [SpentInput.kKey, hhash]
        have hspend := spend_outDel hafter.coins full.length input script
        rw [keptCoin_eq hvalid hinv.suffix, ← hkey, hbefore, hput] at hspend
        rw [hstep _ rfl, if_pos hspent]
        exact hspend
      · rw [hstaged.unspent_coin rfl hspent, hbefore, if_neg hspent]
        rfl
  | hintDel hash txid idx =>
      obtain rfl : hash = b.hash := by simpa [Key.undoBlock] using hundo
      have hbefore : σ₂.staged (.hintDel b.hash txid idx) = none := by
        rw [hafter.staged _ rfl, if_neg (by simp), hfresh]
        rfl
      simp only [undoRecord, archived_live hfits]
      by_cases hspent : ⟨txid, idx⟩ ∈ b.spent
      · obtain ⟨input, hinput, hhash, hstep⟩ := hstaged.spent _ hspent
        obtain ⟨rfl, rfl⟩ := OutPoint.mk.inj hinput
        have hkey : Key.hintDel b.hash input.prevTxHash input.prevOutputIndex = input.mKey := by
          rw [SpentInput.mKey, hhash]
        have hspend := spend_hintDel hafter.coins full.length input
        rw [keptCoin_eq hvalid hinv.suffix, ← hkey, hbefore, hput] at hspend
        rw [hstep _ rfl, if_pos hspent]
        exact hspend
      · rw [hstaged.unspent_coin rfl hspent, hbefore, if_neg hspent]
        rfl
  | outBlk hash txid idx =>
      obtain rfl : hash = b.hash := by simpa [Key.undoBlock] using hundo
      rw [hstaged.unspent _ (by simp [Key.coin]), hafter.staged _ rfl, if_neg (by simp), hfresh, hput]
      simp only [Block.firstPassValue, undoRecord, if_true]
  | blkScript hash script =>
      obtain rfl : hash = b.hash := by simpa [Key.undoBlock] using hundo
      rw [hstaged.unspent _ (by simp [Key.coin]), hafter.scripts.own]
      simp only [undoRecord]
      split <;> rfl
  | txBlockRecovery hash txid =>
      obtain rfl : hash = b.hash := by simpa [Key.undoBlock] using hundo
      rw [hstaged.unspent _ (by simp [Key.coin]), hafter.staged _ rfl, if_neg (by simp), hfresh, hput]
      simp only [Block.firstPassValue, undoRecord, true_and, indexed_live hfits, and_true]
  | _ => cases hundo

omit hinv hfits hvalid in
/-- Recovery records of other blocks stay as they were. -/
theorem BlockStaged.other_undo {k : Key} {hash : Hash} (hundo : k.undoBlock = some hash)
    (hne : hash ≠ b.hash) : σ₄.staged k = σ.staged k := by
  have hbefore : σ₂.staged k = σ.staged k := by
    cases k with
    | blkScript hash' s =>
        obtain rfl : hash' = hash := by simpa [Key.undoBlock] using hundo
        exact hafter.scripts.other _ _ hne
    | outDel hash' _ _ _ | hintDel hash' _ _ | outBlk hash' _ _ | txBlockRecovery hash' _ =>
        obtain rfl : hash' = hash := by simpa [Key.undoBlock] using hundo
        rw [hafter.staged _ rfl, if_neg (by simp)]
        simp [Block.firstPassValue, hne, putOr]
    | _ => cases hundo
  by_cases hspent : ∃ o ∈ b.spent, k.coin = some o
  · obtain ⟨o, ho, hcoin⟩ := hspent
    obtain ⟨input, -, hhash, hstep⟩ := hstaged.spent o ho
    have hkey : ∀ key : Key, key.undoBlock = some input.blockHash → k ≠ key := by
      rintro key hkey rfl
      rw [hundo, hhash, Option.some.injEq] at hkey
      exact hne hkey
    have hnone : ∀ key : Key, key.undoBlock = none → k ≠ key := by
      rintro key hkey rfl
      rw [hundo] at hkey
      cases hkey
    rw [hstep k hcoin, spend_other_block (hnone _ rfl) (fun _ => hnone _ rfl) (hkey _ rfl)
      (fun _ => hkey _ rfl), hbefore]
  · rw [hstaged.unspent k fun o ho heq => hspent ⟨o, ho, heq⟩, hbefore]

omit hinv in
/-- The coins a reader of the batch sees once the block is staged. -/
theorem BlockStaged.coinView :
    CoinView σ₄.staged σ₄.db (p.coins (b :: full)) (p.coins durable) := by
  have hdb : σ₄.db = σ₂.db := hstaged.db.trans hafter.db.symm
  refine ⟨fun txid idx => ?_, fun script txid idx => ?_, fun txid idx => ?_,
    fun script txid idx => ?_, fun txid idx value hput => ?_, fun script txid idx value hput => ?_⟩
  · rw [coins_cons hfits hvalid, hdb]
    by_cases hspent : ⟨txid, idx⟩ ∈ b.spent
    · obtain ⟨input, hinput, -, hstep⟩ := hstaged.spent _ hspent
      rw [hstep _ rfl, if_pos hspent, ← hinput]
      obtain ⟨rfl, rfl⟩ := OutPoint.mk.inj hinput
      exact spend_hint hafter.coins full.length input
    · rw [hstaged.unspent_coin rfl hspent, if_neg hspent]
      exact hafter.coins.hint txid idx
  · rw [coins_cons hfits hvalid, hdb]
    by_cases hspent : ⟨txid, idx⟩ ∈ b.spent
    · obtain ⟨input, hinput, -, hstep⟩ := hstaged.spent _ hspent
      rw [hstep _ rfl, if_pos hspent, ← hinput]
      obtain ⟨rfl, rfl⟩ := OutPoint.mk.inj hinput
      exact spend_output hafter.coins full.length input script
    · rw [hstaged.unspent_coin rfl hspent, if_neg hspent]
      exact hafter.coins.output script txid idx
  · rw [hdb]
    exact hafter.coins.dbHint txid idx
  · rw [hdb]
    exact hafter.coins.dbOutput script txid idx
  · refine hafter.coins.put_hint txid idx value ?_
    by_cases hspent : ⟨txid, idx⟩ ∈ b.spent
    · obtain ⟨input, -, -, hstep⟩ := hstaged.spent _ hspent
      rw [hstep _ rfl] at hput
      exact spend_put (by simp [SpentInput.mKey]) (by simp [SpentInput.kKey]) hput
    · rwa [hstaged.unspent_coin rfl hspent] at hput
  · refine hafter.coins.put_output script txid idx value ?_
    by_cases hspent : ⟨txid, idx⟩ ∈ b.spent
    · obtain ⟨input, -, -, hstep⟩ := hstaged.spent _ hspent
      rw [hstep _ rfl] at hput
      exact spend_put (by simp [SpentInput.mKey]) (by simp [SpentInput.kKey]) hput
    · rwa [hstaged.unspent_coin rfl hspent] at hput

omit hfits in
/-- Only spent coins are deleted. -/
theorem BlockStaged.del_coin {k : Key} (hdel : σ₄.staged k = some .del) :
    ∃ txid idx, utxo (b :: full) ⟨txid, idx⟩ = none ∧
      (everCreated (b :: full) ⟨txid, idx⟩).isSome ∧
        (k = .outHint txid idx ∨ ∃ script, k = .output script txid idx) := by
  have hold : σ₂.staged k = some .del → ∃ txid idx, utxo (b :: full) ⟨txid, idx⟩ = none ∧
      (everCreated (b :: full) ⟨txid, idx⟩).isSome ∧
        (k = .outHint txid idx ∨ ∃ script, k = .output script txid idx) := by
    intro hdel₂
    by_cases hscript : k.isScript = true
    · cases k with
      | scriptBlk s => exact absurd hdel₂ (hafter.scripts.no_del s)
      | blkScript hash s =>
          by_cases hhash : hash = b.hash
          · subst hhash
            rw [hafter.scripts.own] at hdel₂
            split at hdel₂ <;> cases hdel₂
          · rw [hafter.scripts.other _ _ hhash] at hdel₂
            obtain ⟨txid, idx, -, -, hkey | ⟨script, hkey⟩⟩ := hinv.del_coin _ hdel₂ <;> cases hkey
      | _ => cases hscript
    · rw [hafter.staged k (by simpa using hscript)] at hdel₂
      cases hvalue : b.firstPassValue full.length k with
      | some value => simp [hvalue, putOr] at hdel₂
      | none =>
          rw [hvalue, putOr] at hdel₂
          split at hdel₂
          · cases hdel₂
          obtain ⟨txid, idx, hutxo, hever, hkey⟩ := hinv.del_coin k hdel₂
          have hcreated : b.created full.length ⟨txid, idx⟩ = none := by
            cases hout : b.created full.length ⟨txid, idx⟩ with
            | none => rfl
            | some out =>
                rw [hvalid.fresh (Option.isSome_of_eq_some hout)] at hever
                cases hever
          refine ⟨txid, idx, ?_, ?_, hkey⟩
          · rw [utxo_cons]
            by_cases hspent : ⟨txid, idx⟩ ∈ (b.delta full.length).spent
            · exact Ledger.Delta.apply_of_mem hspent
            · rw [Ledger.Delta.apply_of_notMem hspent, hutxo, Option.or_none]
              exact hcreated
          · rw [everCreated_cons, hcreated, Option.none_or]
            exact hever
  by_cases hspent : ∃ o ∈ b.spent, k.coin = some o
  · obtain ⟨o, ho, hcoin⟩ := hspent
    obtain ⟨input, rfl, -, hstep⟩ := hstaged.spent o ho
    rw [hstep k hcoin] at hdel
    rcases spend_del hdel with hdel₂ | ⟨script, oVal, hfound, hkey⟩
    · exact hold hdel₂
    · refine ⟨input.prevTxHash, input.prevOutputIndex, ?_, ?_, hkey.imp id fun h => ⟨script, h⟩⟩
      · rw [utxo_cons]
        exact Ledger.Delta.apply_of_mem ho
      · cases hlive : coinsBefore p full b input.outPoint with
        | none => simp [expectedFound, hlive] at hfound
        | some out =>
            rw [everCreated_cons]
            rw [coinsBefore, SpentInput.outPoint] at hlive
            cases hcreated : b.created full.length ⟨input.prevTxHash, input.prevOutputIndex⟩ with
            | some created => rfl
            | none =>
                rw [hcreated, Option.none_or] at hlive
                rw [Option.none_or, everCreated_of_coins hlive]
                rfl
  · rw [hstaged.unspent k fun o ho heq => hspent ⟨o, ho, heq⟩] at hdel
    exact hold hdel

end Final

end UtxoTracker

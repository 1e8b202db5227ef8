import UtxoTracker.Proof.Forget
import UtxoTracker.Proof.Steps
/-!
# What a cache hit says

Under any loss of entries a known script has its record and a cached output is the one on disk, so a
hit stages what a miss would. Both passes of a block then stage the same writes whatever the caches
lost.
-/

namespace UtxoTracker

open KeyedStore LevelUpStore Provenance

/-! ### The mempool store -/

namespace LevelUpStore

variable {σ σ' σ'' : LevelUpStore}

theorem Loses.trans (hfirst : Loses σ σ') (hsecond : Loses σ' σ'') : Loses σ σ'' where
  db := hsecond.db.trans hfirst.db
  transactionArray := hsecond.transactionArray.trans hfirst.transactionArray
  deletedTransactionArray := hsecond.deletedTransactionArray.trans hfirst.deletedTransactionArray
  outputs o record hget := hfirst.outputs o record (hsecond.outputs o record hget)
  scripts := hsecond.scripts.trans hfirst.scripts

theorem Loses.forget_eq (hloses : Loses σ σ') : σ'.forget = σ.forget := by
  obtain ⟨db, staged, deleted, cache, known⟩ := σ
  obtain ⟨db', staged', deleted', cache', known'⟩ := σ'
  obtain rfl : db' = db := hloses.db
  obtain rfl : staged' = staged := hloses.transactionArray
  obtain rfl : deleted' = deleted := hloses.deletedTransactionArray
  rfl

/-- A mempool output leaves both caches as they are. -/
theorem parseMempoolTransaction_caches (m : LevelUpStore) (tx : Tx) :
    (m.parseMempoolTransaction tx).outputCache = m.outputCache ∧
      (m.parseMempoolTransaction tx).knownScripts = m.knownScripts := by
  have hheight : ∀ output ∈ newOutputs tx (-1), ¬ 0 ≤ output.height := by
    intro output hmem
    rw [newOutputs_height hmem]
    decide
  unfold parseMempoolTransaction
  generalize hbase : m.insertTransaction tx.id none = base
  have hcaches : base.outputCache = m.outputCache ∧ base.knownScripts = m.knownScripts := by
    subst hbase
    exact ⟨addTransaction_outputCache _ _, addTransaction_knownScripts _ _⟩
  rw [← hcaches.1, ← hcaches.2]
  clear hbase hcaches
  generalize newOutputs tx (-1) = outputs at hheight ⊢
  induction outputs generalizing base with
  | nil => exact ⟨rfl, rfl⟩
  | cons output rest ih =>
      rw [List.foldl_cons]
      obtain ⟨houtputs, hscripts⟩ := ih
        ((((base.insertOutput output).insertOutputHint output).insertOutputScriptBlock
          output.scriptPubKey none output.height).insertOutputBlock output none)
        fun other hmem => hheight other (List.mem_cons_of_mem _ hmem)
      rw [houtputs, hscripts]
      simp only [insertOutputBlock, insertOutputScriptBlock, insertOutputHint, insertOutput,
        cacheOutput, if_neg (hheight output List.mem_cons_self), addTransaction_outputCache,
        addTransaction_knownScripts, and_self]

/-- What a call on the mempool store does to the shared caches: nothing, or entries go. -/
theorem MempoolCall.run_caches (m : LevelUpStore) (call : MempoolCall) :
    (∀ (o : OutPoint) (record : OutputRecord), (call.run m).outputCache[o]? = some record →
        m.outputCache[o]? = some record) ∧ (call.run m).knownScripts ⊆ m.knownScripts := by
  cases call with
  | createDatabase =>
      exact ⟨fun o record hget => by simp [run, LevelUpStore.createDatabase] at hget,
        Finset.empty_subset _⟩
  | beginTransaction => exact ⟨fun _ _ hget => hget, subset_rfl⟩
  | parseTransaction tx =>
      obtain ⟨houtputs, hscripts⟩ := parseMempoolTransaction_caches m tx
      simp only [run, houtputs, hscripts]
      exact ⟨fun _ _ hget => hget, subset_rfl⟩
  | addTransaction key op =>
      simp only [run, addTransaction_outputCache, addTransaction_knownScripts]
      exact ⟨fun _ _ hget => hget, subset_rfl⟩
  | endTransaction batch =>
      cases batch with
      | false => exact ⟨fun _ _ hget => hget, Finset.empty_subset _⟩
      | true =>
          simp only [run, LevelUpStore.endTransaction, if_true]
          cases m.transactionArray <;> exact ⟨fun _ _ hget => hget, subset_rfl⟩

/-- **The mempool loop only makes the caches lose entries.** -/
theorem during_loses (σ m : LevelUpStore) (calls : List MempoolCall) :
    Loses σ (σ.during m calls) := by
  have hcalls : ∀ n : LevelUpStore,
      (∀ (o : OutPoint) (record : OutputRecord),
        (calls.foldl MempoolCall.run n).outputCache[o]? = some record →
          n.outputCache[o]? = some record) ∧
        (calls.foldl MempoolCall.run n).knownScripts ⊆ n.knownScripts := by
    induction calls with
    | nil => exact fun n => ⟨fun _ _ hget => hget, subset_rfl⟩
    | cons call rest ih =>
        intro n
        obtain ⟨houtputs, hscripts⟩ := MempoolCall.run_caches n call
        obtain ⟨houtputs', hscripts'⟩ := ih (call.run n)
        exact ⟨fun o record hget => houtputs o record (houtputs' o record hget),
          hscripts'.trans hscripts⟩
  obtain ⟨houtputs, hscripts⟩ := hcalls (m.withCaches σ)
  exact ⟨rfl, rfl, rfl, houtputs, hscripts⟩

/-! ### Known scripts -/

/-- A known script has its `S` record, staged or on disk. -/
def ScriptsRecorded (σ : LevelUpStore) : Prop :=
  ∀ script ∈ σ.knownScripts, (σ.getTransactionValue (.scriptBlk script)).isSome ∨
    (σ.db[Key.scriptBlk script]?).isSome

theorem recorded_of_effective {key : Key} (hsome : (σ.effective key).isSome) :
    (σ.getTransactionValue key).isSome ∨ (σ.db[key]?).isSome := by
  rw [effective] at hsome
  rw [getTransactionValue_eq]
  cases hop : σ.staged key with
  | none =>
      rw [hop, overlay_none] at hsome
      exact Or.inr hsome
  | some op =>
      cases op with
      | put value => exact Or.inl rfl
      | del => simp [hop] at hsome

/-- **A hit on a known script stages what a lookup would.** -/
theorem forget_insertOutputScriptBlock (hrecorded : σ.ScriptsRecorded) (script blockHash : Hash)
    (height : Int) :
    (σ.insertOutputScriptBlock script (some blockHash) height).forget =
      (σ.forget.insertOutputScriptBlock script (some blockHash) height).forget := by
  have htrim : σ.trimKnownScripts.forget = σ.forget := by
    unfold trimKnownScripts
    split <;> rfl
  have hempty : σ.forget.trimKnownScripts = σ.forget := by
    unfold trimKnownScripts
    split <;> rfl
  have hbatch : σ.trimKnownScripts.getTransactionValue (.scriptBlk script) =
      σ.getTransactionValue (.scriptBlk script) := by
    unfold trimKnownScripts
    split <;> rfl
  have hbatch' : σ.forget.getTransactionValue (.scriptBlk script) =
      σ.getTransactionValue (.scriptBlk script) := rfl
  have hdb : σ.trimKnownScripts.db = σ.db := by
    unfold trimKnownScripts
    split <;> rfl
  have hnotMem : script ∉ σ.forget.knownScripts := Finset.notMem_empty script
  simp only [insertOutputScriptBlock]
  rw [hempty, if_neg hnotMem, hbatch, hbatch', hdb, forget_db]
  by_cases hknown : script ∈ σ.trimKnownScripts.knownScripts
  · rw [if_pos hknown, htrim]
    rcases hrecorded script (trimKnownScripts_subset σ hknown) with hstaged | hdisk
    · rw [if_pos hstaged]
      rfl
    · rw [if_pos hdisk]
      split <;> rfl
  · rw [if_neg hknown]
    have hremember : ∀ τ τ' : LevelUpStore, τ.forget = τ'.forget →
        (τ.rememberScript script).forget = (τ'.rememberScript script).forget :=
      fun _ _ hsame => hsame
    split
    · exact hremember _ _ htrim
    split
    · exact hremember _ _ htrim
    · refine hremember _ _ ?_
      rw [← forget_addTransaction, ← forget_addTransaction, htrim, ← forget_addTransaction,
        ← forget_addTransaction]
      rfl

theorem forget_cacheOutput (output : NewOutput) : (σ.cacheOutput output).forget = σ.forget := by
  unfold cacheOutput
  split <;> rfl

theorem ScriptsRecorded.addTransactions (hopen : σ.Open) (hrecorded : σ.ScriptsRecorded)
    {ops : List (Key × WriteOp Value)} (hother : ∀ k op, (k, op) ∈ ops → k.isScript = false) :
    (σ.addTransactions ops).ScriptsRecorded := by
  intro script hmem
  rw [addTransactions_knownScripts] at hmem
  rw [getTransactionValue_eq, hopen.staged_addTransactions_of_notMem, hopen.addTransactions_db,
    ← getTransactionValue_eq]
  · exact hrecorded script hmem
  · intro op hop
    cases hother _ op hop

/-- Recording one output with both caches empty stages the same writes. -/
theorem forget_parseTxOutput (hopen : σ.Open) (hrecorded : σ.ScriptsRecorded) (output : NewOutput)
    (blockHash : Hash) :
    (σ.parseTxOutput output blockHash).forget =
      (σ.forget.parseTxOutput output blockHash).forget := by
  have hwritten : ((σ.insertOutput output).insertOutputHint output).ScriptsRecorded := by
    have hcached : (σ.cacheOutput output).ScriptsRecorded ∧ (σ.cacheOutput output).Open := by
      unfold cacheOutput
      split
      · exact ⟨hrecorded, hopen⟩
      · exact ⟨hrecorded, hopen⟩
    have hother : ∀ k op, (k, op) ∈ (outputWrites blockHash output).take 2 → k.isScript = false := by
      intro k op hmem
      simp only [outputWrites, List.take_succ_cons, List.take_zero, List.mem_cons, Prod.mk.injEq,
        List.not_mem_nil, or_false] at hmem
      rcases hmem with ⟨rfl, -⟩ | ⟨rfl, -⟩ <;> rfl
    exact hcached.1.addTransactions hcached.2 hother
  have hputs : ((σ.forget.insertOutput output).insertOutputHint output).forget =
      ((σ.insertOutput output).insertOutputHint output).forget := by
    simp only [insertOutput, insertOutputHint, ← forget_addTransaction, forget_cacheOutput]
    rfl
  have hwritten' : ((σ.forget.insertOutput output).insertOutputHint output).ScriptsRecorded := by
    intro script hmem
    have hnone : ((σ.forget.insertOutput output).insertOutputHint output).knownScripts = ∅ := by
      simp only [insertOutput, insertOutputHint, addTransaction_knownScripts]
      unfold cacheOutput
      split <;> rfl
    rw [hnone] at hmem
    cases hmem
  simp only [parseTxOutput, insertOutputBlock]
  rw [← forget_addTransaction, ← forget_addTransaction,
    forget_insertOutputScriptBlock hwritten, forget_insertOutputScriptBlock hwritten', hputs]

/-! ### Cached outputs -/

/-- What the disk says of an input whose hint was found there. -/
def diskLookup (σ : LevelUpStore) (input : SpentInput) (found : Resolved) : Resolved :=
  match found with
  | .onDisk script _ => .onDisk script σ.db[input.oKey script]?
  | other => other

/-- Whatever else is lost before it, a hit on a cached output is the value on disk. -/
def HitsTrue (loss : CacheLoss) (σ : LevelUpStore) (hints : List (SpentInput × Resolved)) : Prop :=
  ∀ σ', Loses σ σ' → ∀ input script oVal record, (input, Resolved.onDisk script oVal) ∈ hints →
    (loss.atLookup input.outPoint σ').outputCache[input.outPoint]? = some record →
      σ.db[input.oKey script]? = some (.output record)

theorem hitsTrue_all (hints : List (SpentInput × Resolved)) : HitsTrue .all σ hints := by
  intro σ' _ input script oVal record _ hget
  simp [CacheLoss.all, forget] at hget

theorem outputLookup_loses (σ : LevelUpStore) (input : SpentInput) (found : Resolved) :
    Loses σ (σ.outputLookup input found).1 := by
  obtain ⟨cache, hstore, hsub⟩ := outputLookup_store σ input found
  rw [hstore]
  exact ⟨rfl, rfl, rfl, hsub, subset_rfl⟩

/-- **Both lookup phases under a loss**: each input finds what the disk says. -/
theorem outputLookupsUnder_spec (loss : CacheLoss) (σ₀ : LevelUpStore)
    (hints : List (SpentInput × Resolved)) (htrue : HitsTrue loss σ₀ hints) (σ : LevelUpStore)
    (hloses : Loses σ₀ σ) :
    Loses σ₀ (outputLookupsUnder loss hints σ).1 ∧
      (outputLookupsUnder loss hints σ).2 =
        hints.map fun entry => (entry.1, σ₀.diskLookup entry.1 entry.2) := by
  induction hints generalizing σ with
  | nil => exact ⟨hloses, rfl⟩
  | cons head rest ih =>
      obtain ⟨input, found⟩ := head
      have hbefore := hloses.trans (loss.lookup_loses input.outPoint σ)
      have hafter := hbefore.trans (outputLookup_loses _ input found)
      have hrest : HitsTrue loss σ₀ rest := fun σ' hσ' other script oVal record hmem =>
        htrue σ' hσ' other script oVal record (List.mem_cons_of_mem _ hmem)
      obtain ⟨hlast, hresolved⟩ := ih hrest _ hafter
      have hfound : ((loss.atLookup input.outPoint σ).outputLookup input found).2 =
          σ₀.diskLookup input found := by
        cases found with
        | missing => rfl
        | inMem script => rfl
        | onDisk script oVal =>
            simp only [outputLookup, diskLookup]
            cases hcached : (loss.atLookup input.outPoint σ).outputCache[input.outPoint]? with
            | none => rw [hbefore.db]
            | some record =>
                rw [htrue σ hloses input script oVal record List.mem_cons_self hcached]
      simp only [outputLookupsUnder]
      exact ⟨hlast, by rw [hfound, hresolved, List.map_cons]⟩

/-! ### Staging the spends -/

theorem withCaches_stageSpend (m : LevelUpStore) (input : SpentInput) (found : Resolved) :
    (σ.withCaches m).stageSpend input found =
      (σ.stageSpend input found).map (·.withCaches m) := by
  cases found with
  | missing => rfl
  | onDisk script oVal =>
      cases oVal with
      | none => rfl
      | some oVal =>
          simp only [stageSpend, withCaches_addTransaction]
          rfl
  | inMem script =>
      have hrecovery : ∀ (τ : LevelUpStore) (oVal : Option Value),
          (τ.withCaches m).writeCrossBlockSpendRecovery input script oVal =
            (τ.writeCrossBlockSpendRecovery input script oVal).withCaches m := by
        intro τ oVal
        have hheight : (τ.withCaches m).spendBlockHeightInBatch input.blockHash =
            τ.spendBlockHeightInBatch input.blockHash := rfl
        unfold writeCrossBlockSpendRecovery
        cases oVal with
        | none => rfl
        | some oVal =>
            simp only [hheight]
            cases (decodeOutput oVal).map OutputRecord.h with
            | none => rfl
            | some createdHeight =>
                cases τ.spendBlockHeightInBatch input.blockHash with
                | none => rfl
                | some spendHeight =>
                    simp only
                    split
                    · rfl
                    split
                    · rfl
                    · simp only [withCaches_addTransaction]
      have hvalue : (σ.withCaches m).getTransactionValue (input.oKey script) =
          σ.getTransactionValue (input.oKey script) := rfl
      simp only [stageSpend, unstageInMemorySpend, withCaches_removeTransaction, hvalue]
      cases σ.removeTransaction (input.oKey script) input.blockHash with
      | none => rfl
      | some τ =>
          simp only [Option.map_some, withCaches_removeTransaction]
          cases τ.removeTransaction input.hKey input.blockHash with
          | none => rfl
          | some υ =>
              simp only [Option.map_some, bind, Except.bind, hrecovery]
              rfl

theorem withCaches_stageSpends (m : LevelUpStore) (resolved : List (SpentInput × Resolved)) :
    stageSpends resolved (σ.withCaches m) =
      (stageSpends resolved σ).map (·.withCaches m) := by
  induction resolved generalizing σ with
  | nil => rfl
  | cons head rest ih =>
      obtain ⟨input, found⟩ := head
      simp only [stageSpends, withCaches_stageSpend]
      cases σ.stageSpend input found with
      | error message => rfl
      | ok τ => exact ih

theorem forget_stageSpends (resolved : List (SpentInput × Resolved)) :
    stageSpends resolved σ.forget = (stageSpends resolved σ).map forget :=
  withCaches_stageSpends (createDatabase ∅) resolved

/-- The spends leave both caches as they are. -/
theorem stageSpends_caches {resolved : List (SpentInput × Resolved)}
    (hrun : stageSpends resolved σ = .ok σ') :
    σ'.outputCache = σ.outputCache ∧ σ'.knownScripts = σ.knownScripts := by
  have hsame := withCaches_stageSpends (σ := σ) σ resolved
  rw [withCaches_self, hrun] at hsame
  have hstore := Except.ok.inj hsame
  rw [hstore]
  exact ⟨rfl, rfl⟩

end LevelUpStore

end UtxoTracker

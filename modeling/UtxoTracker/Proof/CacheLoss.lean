import UtxoTracker.Proof.CacheHits
/-!
# Staging a block under a loss of cache entries

The invariant of the first pass survives every loss, so all hits in a block are true, and the block
stages the same writes under any two losses.
-/

namespace UtxoTracker

open KeyedStore LevelUpStore Provenance

/-! ### The first pass -/

theorem CacheInv.loses {σ σ' : LevelUpStore} {chain : Chain} {done : List NewOutput}
    (hinv : CacheInv σ chain done) (hloses : Loses σ σ') : CacheInv σ' chain done :=
  fun o record hget => hinv o record (hloses.outputs o record hget)

namespace FirstPass

variable {σ₀ σ τ : LevelUpStore} {chain : Chain} {blockHash : Hash} {height : Int}
  {ops : List (Key × WriteOp Value)} {done : List NewOutput}

theorem loses (hopen : σ₀.Open) (hpass : FirstPass σ₀ σ chain blockHash height ops done)
    (hloses : Loses σ τ) : FirstPass σ₀ τ chain blockHash height ops done where
  writes := by
    have hsame : StagedFrom σ τ [] := .of_caches hpass.writes.isOpen hloses.db
      hloses.transactionArray hloses.deletedTransactionArray
    simpa using hpass.writes.trans hopen hsame
  scripts := hpass.scripts.congr hloses.db
    (fun k _ => by rw [LevelUpStore.staged, LevelUpStore.staged, hloses.transactionArray])
    hloses.scripts
  cache := hpass.cache.loses hloses

theorem scriptsRecorded (hpass : FirstPass σ₀ σ chain blockHash height ops done) :
    σ.ScriptsRecorded :=
  fun script hmem => recorded_of_effective (hpass.scripts.known script hmem)

/-- Every output of one transaction. -/
theorem parseTxOutputsUnder (loss : CacheLoss) (hopen : σ₀.Open)
    (hpass : FirstPass σ₀ σ chain blockHash height ops done) (outs : List NewOutput)
    (hheight : ∀ out ∈ outs, out.height = height) (hpos : 0 ≤ height) :
    FirstPass σ₀ (outs.foldl (fun σ out => parseTxOutputUnder loss σ out blockHash) σ) chain
      blockHash height (ops ++ outs.flatMap (outputWrites blockHash)) (done ++ outs) := by
  induction outs generalizing σ ops done with
  | nil => simpa using hpass
  | cons out rest ih =>
      have hlost := hpass.loses hopen (loss.script_loses out.outPoint σ)
      have hnext := hlost.parseTxOutput hopen out (hheight out List.mem_cons_self) hpos
      have hrest := ih hnext fun out' hmem => hheight out' (List.mem_cons_of_mem _ hmem)
      simpa [parseTxOutputUnder] using hrest

/-- Every transaction of the block. -/
theorem parseOutputsUnder (loss : CacheLoss) (hopen : σ₀.Open)
    (hpass : FirstPass σ₀ σ chain blockHash height ops done) (transactions : List Tx)
    (hpos : 0 ≤ height) :
    FirstPass σ₀ (LevelUpStore.parseOutputsUnder loss σ transactions blockHash height) chain
      blockHash height (ops ++ firstPassWrites transactions blockHash height)
      (done ++ transactions.flatMap (newOutputs · height)) := by
  induction transactions generalizing σ ops done with
  | nil => simpa [LevelUpStore.parseOutputsUnder, firstPassWrites] using hpass
  | cons tx rest ih =>
      have houts := (hpass.insertTransaction hopen tx.id).parseTxOutputsUnder loss hopen
        (newOutputs tx height) (fun out hmem => newOutputs_height hmem) hpos
      have hrest := ih houts
      simpa [firstPassWrites, LevelUpStore.parseOutputsUnder,
        LevelUpStore.parseTxOutputsUnder] using hrest

/-! Two runs of the pass from the same batch stage the same writes. -/

theorem forget_parseTxOutputsUnder (loss : CacheLoss) (hopen : σ₀.Open)
    (hpass : FirstPass σ₀ σ chain blockHash height ops done) (hsame : σ.forget = τ.forget)
    (outs : List NewOutput) (hheight : ∀ out ∈ outs, out.height = height) (hpos : 0 ≤ height) :
    (outs.foldl (fun σ out => parseTxOutputUnder loss σ out blockHash) σ).forget =
      (outs.foldl (fun σ out => parseTxOutputUnder .all σ out blockHash) τ).forget := by
  induction outs generalizing σ τ ops done with
  | nil => exact hsame
  | cons out rest ih =>
      have hlost := hpass.loses hopen (loss.script_loses out.outPoint σ)
      have hnext := hlost.parseTxOutput hopen out (hheight out List.mem_cons_self) hpos
      have hstep : (parseTxOutputUnder loss σ out blockHash).forget =
          (parseTxOutputUnder .all τ out blockHash).forget := by
        calc (parseTxOutputUnder loss σ out blockHash).forget
            = ((loss.atScript out.outPoint σ).forget.parseTxOutput out blockHash).forget :=
              forget_parseTxOutput hlost.writes.isOpen hlost.scriptsRecorded out blockHash
          _ = (τ.forget.parseTxOutput out blockHash).forget := by
              rw [(loss.script_loses out.outPoint σ).forget_eq, hsame]
      exact ih hnext hstep fun out' hmem => hheight out' (List.mem_cons_of_mem _ hmem)

theorem forget_parseOutputsUnder (loss : CacheLoss) (hopen : σ₀.Open)
    (hpass : FirstPass σ₀ σ chain blockHash height ops done) (hsame : σ.forget = τ.forget)
    (transactions : List Tx) (hpos : 0 ≤ height) :
    (LevelUpStore.parseOutputsUnder loss σ transactions blockHash height).forget =
      (LevelUpStore.parseOutputsUnder .all τ transactions blockHash height).forget := by
  induction transactions generalizing σ τ ops done with
  | nil => exact hsame
  | cons tx rest ih =>
      have hinsert := hpass.insertTransaction hopen tx.id
      have hinserted : (σ.insertTransaction tx.id (some blockHash)).forget =
          (τ.insertTransaction tx.id (some blockHash)).forget := by
        simp only [LevelUpStore.insertTransaction, ← forget_addTransaction, hsame]
      have hheight : ∀ out ∈ newOutputs tx height, out.height = height :=
        fun out hmem => newOutputs_height hmem
      exact ih (hinsert.parseTxOutputsUnder loss hopen _ hheight hpos)
        (hinsert.forget_parseTxOutputsUnder loss hopen hinserted _ hheight hpos)

end FirstPass

/-! ### The second pass -/

section Block

variable {p : Provenance} {durable full : Chain} {window : List Hash} {σ σ₂ : LevelUpStore}
  {b : Block}

/-- Every input of a block whose hint is on disk names a live coin there. -/
theorem AfterOutputs.hitsTrue (hafter : AfterOutputs p durable full b σ σ₂)
    (hinv : StagedInv p durable full window σ) (hvalid : ValidBlock full b) (loss : CacheLoss) :
    HitsTrue loss σ₂ ((removeInputs b.transactions b.hash).map fun input =>
      (input, σ₂.hintLookup input)) := by
  intro σ' hloses input script oVal record hmem hcached
  obtain ⟨input', hin, heq⟩ := List.mem_map.mp hmem
  obtain ⟨rfl, hhint⟩ := Prod.mk.inj heq
  have hspent : input'.outPoint ∈ b.spent :=
    removeInputs_outPoint b ▸ List.mem_map_of_mem hin
  have hcached₂ : σ₂.outputCache[input'.outPoint]? = some record :=
    (hloses.trans (loss.lookup_loses _ _)).outputs _ _ hcached
  cases hlive : coinsBefore p full b input'.outPoint with
  | none =>
      rw [hintLookup_missing hafter.coins hlive
        (hafter.hint_not_deleted hinv hvalid hspent)] at hhint
      cases hhint
  | some out =>
      rw [hintLookup_eq hafter.coins hlive] at hhint
      split at hhint
      · cases hhint
      · next hdurable =>
          obtain ⟨rfl, -⟩ := Resolved.onDisk.inj hhint
          rcases hafter.coins.staged_or_durable hlive with ⟨-, -, hnone⟩ | ⟨-, -, -, hdb⟩
          · exact absurd hnone hdurable
          · rw [hafter.cached_eq hlive hcached₂]
            exact hdb

/-- The first pass of a block under a loss, from the batch invariant. -/
theorem StagedInv.firstPassUnder (hinv : StagedInv p durable full window σ)
    (hfits : p.Fits full window) (hvalid : ValidBlock full b) (loss : CacheLoss) :
    FirstPass (σ.insertBlock b.hash full.length b.timestamp b.prevHash)
      (parseOutputsUnder loss (σ.insertBlock b.hash full.length b.timestamp b.prevHash)
        b.transactions b.hash full.length)
      full b.hash full.length (firstPassWrites b.transactions b.hash full.length)
      (b.transactions.flatMap (newOutputs · full.length)) := by
  have hpass := (hinv.firstPass hfits hvalid).parseOutputsUnder loss
    (hinv.isOpen.addTransaction _ _) b.transactions (Int.natCast_nonneg _)
  rwa [List.nil_append, List.nil_append] at hpass

/-- **A block under a loss** stages what it stages with both caches empty, and leaves true caches. -/
theorem StagedInv.parseBlockTransactionsUnder (hinv : StagedInv p durable full window σ)
    (hfits : p.Fits full window) (hvalid : ValidBlock full b) (loss : CacheLoss)
    {τ : LevelUpStore} (hsame : σ.forget = τ.forget) :
    (LevelUpStore.parseBlockTransactionsUnder loss
        (σ.insertBlock b.hash full.length b.timestamp b.prevHash) b.transactions b.hash
        full.length).map LevelUpStore.forget =
      (LevelUpStore.parseBlockTransactionsUnder .all
        (τ.insertBlock b.hash full.length b.timestamp b.prevHash) b.transactions b.hash
        full.length).map LevelUpStore.forget ∧
      ∀ σ₄, LevelUpStore.parseBlockTransactionsUnder loss
          (σ.insertBlock b.hash full.length b.timestamp b.prevHash) b.transactions b.hash
          full.length = .ok σ₄ →
        CacheInv σ₄ (b :: full) [] ∧ ∀ s ∈ σ₄.knownScripts, (firstSeen (b :: full) s).isSome := by
  have hpass := hinv.firstPassUnder hfits hvalid loss
  have hafter := hinv.afterOutputs hvalid hpass
  have hinserted : (σ.insertBlock b.hash full.length b.timestamp b.prevHash).forget =
      (τ.insertBlock b.hash full.length b.timestamp b.prevHash).forget := by
    rw [insertBlock, insertBlock, ← forget_addTransaction, ← forget_addTransaction, hsame]
  have hfirst := (hinv.firstPass hfits hvalid).forget_parseOutputsUnder loss
    (hinv.isOpen.addTransaction _ _) hinserted b.transactions (Int.natCast_nonneg _)
  simp only [LevelUpStore.parseBlockTransactionsUnder]
  generalize parseOutputsUnder loss (σ.insertBlock b.hash full.length b.timestamp b.prevHash)
    b.transactions b.hash full.length = σ₂ at hafter hfirst ⊢
  generalize parseOutputsUnder .all (τ.insertBlock b.hash full.length b.timestamp b.prevHash)
    b.transactions b.hash full.length = τ₂ at hfirst ⊢
  have hhints : ∀ input, τ₂.hintLookup input = σ₂.hintLookup input := by
    intro input
    have hlookup : σ₂.forget.hintLookup input = τ₂.forget.hintLookup input := by rw [hfirst]
    exact hlookup.symm
  have hdb : τ₂.db = σ₂.db := by
    have hdb := congrArg LevelUpStore.db hfirst
    exact hdb.symm
  simp only [removeOutputsWithInputsBatchUnder, hhints]
  obtain ⟨hlost, hfound⟩ := outputLookupsUnder_spec loss σ₂ _ (hafter.hitsTrue hinv hvalid loss) σ₂
    (.refl σ₂)
  obtain ⟨hlost', hfound'⟩ := outputLookupsUnder_spec .all τ₂ _
    (hitsTrue_all ((removeInputs b.transactions b.hash).map fun input =>
      (input, σ₂.hintLookup input))) τ₂ (.refl τ₂)
  generalize outputLookupsUnder loss ((removeInputs b.transactions b.hash).map fun input =>
    (input, σ₂.hintLookup input)) σ₂ = looked at hlost hfound ⊢
  generalize outputLookupsUnder .all ((removeInputs b.transactions b.hash).map fun input =>
    (input, σ₂.hintLookup input)) τ₂ = looked' at hlost' hfound' ⊢
  obtain ⟨σ₃, resolved⟩ := looked
  obtain ⟨τ₃, resolved'⟩ := looked'
  simp only at hlost hfound hlost' hfound' ⊢
  have hresolved : resolved' = resolved := by
    rw [hfound, hfound']
    refine List.map_congr_left fun entry _ => ?_
    simp only [diskLookup, hdb]
  have hstores : σ₃.forget = τ₃.forget := by
    rw [hlost.forget_eq, hlost'.forget_eq, hfirst]
  refine ⟨?_, fun σ₄ hrun => ?_⟩
  · rw [hresolved]
    calc (stageSpends resolved σ₃).map LevelUpStore.forget
        = stageSpends resolved σ₃.forget := (forget_stageSpends resolved).symm
      _ = stageSpends resolved τ₃.forget := by rw [hstores]
      _ = (stageSpends resolved τ₃).map LevelUpStore.forget := forget_stageSpends resolved
  · obtain ⟨hcache, hknown⟩ := stageSpends_caches hrun
    refine ⟨(hafter.cache.loses hlost).congr hcache, fun s hs => ?_⟩
    rw [hknown] at hs
    have hseen := hafter.scripts.known s (hlost.scripts hs)
    rw [hafter.scripts.firstSeen, Option.isSome_map] at hseen
    exact hseen

end Block

end UtxoTracker

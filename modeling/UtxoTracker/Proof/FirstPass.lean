import UtxoTracker.Proof.Outputs
/-!
# The first pass as a whole

The loop invariant of `parseOutputs`: the writes so far, the scripts so far and the cached outputs
so far. At its end every record the first pass owes the block is staged.
-/

namespace UtxoTracker

open KeyedStore LevelUpStore

/-! ### The output cache -/

/-- A cached output is the one the block has just created, or the one the chain created. -/
def CacheInv (σ : LevelUpStore) (chain : Chain) (done : List NewOutput) : Prop :=
  ∀ o record, σ.outputCache[o]? = some record →
    (∃ out ∈ done, out.outPoint = o ∧ record = out.record) ∨
      (∀ out ∈ done, out.outPoint ≠ o) ∧
        ∀ out, everCreated chain o = some out → record = out.record

theorem CacheInv.congr {σ σ' : LevelUpStore} {chain : Chain} {done : List NewOutput}
    (hinv : CacheInv σ chain done) (hcache : σ'.outputCache = σ.outputCache) :
    CacheInv σ' chain done := by
  intro o record hget
  rw [hcache] at hget
  exact hinv o record hget

theorem CacheInv.cacheOutput {σ : LevelUpStore} {chain : Chain} {done : List NewOutput}
    (hinv : CacheInv σ chain done) (out : NewOutput) (hheight : 0 ≤ out.height) :
    CacheInv (σ.cacheOutput out) chain (done ++ [out]) := by
  intro o record hget
  simp only [LevelUpStore.cacheOutput, if_pos hheight] at hget
  split at hget
  · simp at hget
  · rw [Std.ExtTreeMap.getElem?_insert] at hget
    by_cases ho : out.outPoint = o
    · subst ho
      simp only [Std.compare_self, if_true, Option.some.injEq] at hget
      exact Or.inl ⟨out, by simp, rfl, hget.symm⟩
    · have hne : compare out.outPoint o ≠ .eq := fun heq => ho (Std.LawfulEqOrd.eq_of_compare heq)
      rw [if_neg hne] at hget
      rcases hinv o record hget with ⟨out', hmem, hout', hrecord⟩ | ⟨hother, hchain⟩
      · exact Or.inl ⟨out', List.mem_append_left _ hmem, hout', hrecord⟩
      · refine Or.inr ⟨fun out' hmem => ?_, hchain⟩
        rcases List.mem_append.mp hmem with hin | hlast
        · exact hother out' hin
        · rw [List.mem_singleton.mp hlast]
          exact ho

/-! ### The loop invariant -/

/-- The state `σ` after the writes `ops` and the outputs `done` of a block staged on `σ₀`. -/
structure FirstPass (σ₀ σ : LevelUpStore) (chain : Chain) (blockHash : Hash) (height : Int)
    (ops : List (Key × WriteOp Value)) (done : List NewOutput) : Prop where
  writes : StagedFrom σ₀ σ ops
  scripts : ScriptInv σ₀.staged σ chain blockHash height (done.map NewOutput.scriptPubKey)
  cache : CacheInv σ chain done

namespace FirstPass

variable {σ₀ σ : LevelUpStore} {chain : Chain} {blockHash : Hash} {height : Int}
  {ops : List (Key × WriteOp Value)} {done : List NewOutput}

/-- Writes outside the script families extend the list and touch neither cache. -/
theorem addTransactions (hopen : σ₀.Open) (hpass : FirstPass σ₀ σ chain blockHash height ops done)
    (more : List (Key × WriteOp Value)) (hmore : ∀ k op, (k, op) ∈ more → k.isScript = false) :
    FirstPass σ₀ (σ.addTransactions more) chain blockHash height (ops ++ more) done where
  writes := hpass.writes.trans hopen (.addTransactions hpass.writes.isOpen more)
  scripts := by
    refine hpass.scripts.congr (hpass.writes.isOpen.addTransactions_db more) (fun k hk => ?_) ?_
    · refine hpass.writes.isOpen.staged_addTransactions_of_notMem fun op hmem => ?_
      rw [hmore k op hmem] at hk
      cases hk
    · rw [addTransactions_knownScripts]
  cache := hpass.cache.congr (addTransactions_outputCache more)

theorem cacheOutput (hopen : σ₀.Open) (hpass : FirstPass σ₀ σ chain blockHash height ops done)
    (out : NewOutput) (hheight : 0 ≤ out.height) :
    StagedFrom σ₀ (σ.cacheOutput out) ops ∧
      ScriptInv σ₀.staged (σ.cacheOutput out) chain blockHash height (done.map NewOutput.scriptPubKey) ∧
      CacheInv (σ.cacheOutput out) chain (done ++ [out]) := by
  have heq : ∃ cache, σ.cacheOutput out = { σ with outputCache := cache } := by
    unfold LevelUpStore.cacheOutput
    rw [if_pos hheight]
    exact ⟨_, rfl⟩
  have hcache := hpass.cache.cacheOutput out hheight
  obtain ⟨cache, hσ⟩ := heq
  rw [hσ] at hcache ⊢
  have hsame : StagedFrom σ { σ with outputCache := cache } [] :=
    .of_caches hpass.writes.isOpen rfl rfl rfl
  refine ⟨?_, hpass.scripts.congr rfl (fun _ _ => rfl) subset_rfl, hcache⟩
  simpa using hpass.writes.trans hopen hsame

/-- One output. -/
theorem parseTxOutput (hopen : σ₀.Open) (hpass : FirstPass σ₀ σ chain blockHash height ops done)
    (out : NewOutput) (hheight : out.height = height) (hpos : 0 ≤ height) :
    FirstPass σ₀ (σ.parseTxOutput out blockHash) chain blockHash height
      (ops ++ outputWrites blockHash out) (done ++ [out]) := by
  obtain ⟨hwrites, hscripts, hcache⟩ := hpass.cacheOutput hopen out (hheight ▸ hpos)
  generalize hτ : σ.cacheOutput out = τ at hwrites hscripts hcache
  -- `O` and `H`
  have hputs : ∀ k op, (k, op) ∈ (outputWrites blockHash out).take 2 → k.isScript = false := by
    intro k op hmem
    simp only [outputWrites, List.take_succ_cons, List.take_zero, List.mem_cons, Prod.mk.injEq,
      List.not_mem_nil, or_false] at hmem
    rcases hmem with ⟨rfl, -⟩ | ⟨rfl, -⟩ <;> rfl
  have hOH : StagedFrom τ (τ.addTransactions ((outputWrites blockHash out).take 2))
      ((outputWrites blockHash out).take 2) := .addTransactions hwrites.isOpen _
  have hscripts₁ : ScriptInv σ₀.staged (τ.addTransactions ((outputWrites blockHash out).take 2)) chain
      blockHash height (done.map NewOutput.scriptPubKey) := by
    refine hscripts.congr hOH.db (fun k hk => ?_) (by rw [addTransactions_knownScripts])
    refine hwrites.isOpen.staged_addTransactions_of_notMem fun op hmem => ?_
    rw [hputs k op hmem] at hk
    cases hk
  -- `S` and `Z`
  obtain ⟨hscripts₂, hSZ, hcache₂⟩ :=
    insertOutputScriptBlock_spec hOH.isOpen hscripts₁ out.scriptPubKey
  generalize hυ : (τ.addTransactions ((outputWrites blockHash out).take 2)).insertOutputScriptBlock
    out.scriptPubKey (some blockHash) height = υ at hscripts₂ hSZ hcache₂
  -- `W`
  have hW : StagedFrom υ (υ.addTransactions ((outputWrites blockHash out).drop 2))
      ((outputWrites blockHash out).drop 2) := .addTransactions hSZ.isOpen _
  have hresult : σ.parseTxOutput out blockHash =
      υ.addTransactions ((outputWrites blockHash out).drop 2) := by
    subst hυ hτ hheight
    rfl
  rw [hresult]
  refine ⟨?_, ?_, ?_⟩
  · have hall := ((hwrites.trans hopen hOH).trans hopen hSZ).trans hopen hW
    rwa [List.append_nil, List.append_assoc, List.take_append_drop] at hall
  · rw [List.map_append, List.map_singleton]
    refine hscripts₂.congr hW.db (fun k hk => ?_) (by rw [addTransactions_knownScripts])
    refine hSZ.isOpen.staged_addTransactions_of_notMem fun op hmem => ?_
    simp only [outputWrites, List.drop_succ_cons, List.drop_zero, List.mem_singleton,
      Prod.mk.injEq] at hmem
    rw [hmem.1] at hk
    cases hk
  · refine hcache.congr ?_
    rw [addTransactions_outputCache, hcache₂, addTransactions_outputCache]

/-- Every output of one transaction. -/
theorem parseTxOutputs (hopen : σ₀.Open) (hpass : FirstPass σ₀ σ chain blockHash height ops done)
    (outs : List NewOutput) (hheight : ∀ out ∈ outs, out.height = height) (hpos : 0 ≤ height) :
    FirstPass σ₀ (outs.foldl (fun σ out => σ.parseTxOutput out blockHash) σ) chain blockHash height
      (ops ++ outs.flatMap (outputWrites blockHash)) (done ++ outs) := by
  induction outs generalizing σ ops done with
  | nil => simpa using hpass
  | cons out rest ih =>
      have hnext := hpass.parseTxOutput hopen out (hheight out List.mem_cons_self) hpos
      have hrest := ih hnext fun out' hmem => hheight out' (List.mem_cons_of_mem _ hmem)
      simpa using hrest

theorem insertTransaction (hopen : σ₀.Open)
    (hpass : FirstPass σ₀ σ chain blockHash height ops done) (txid : Hash) :
    FirstPass σ₀ (σ.insertTransaction txid (some blockHash)) chain blockHash height
      (ops ++ txWrites blockHash txid) done := by
  refine hpass.addTransactions hopen (txWrites blockHash txid) fun k op hmem => ?_
  simp only [txWrites, List.mem_cons, Prod.mk.injEq, List.not_mem_nil, or_false] at hmem
  rcases hmem with ⟨rfl, -⟩ | ⟨rfl, -⟩ | ⟨rfl, -⟩ <;> rfl

/-- Every transaction of the block. -/
theorem parseOutputs (hopen : σ₀.Open) (hpass : FirstPass σ₀ σ chain blockHash height ops done)
    (transactions : List Tx) (hpos : 0 ≤ height) :
    FirstPass σ₀ (σ.parseOutputs transactions blockHash height) chain blockHash height
      (ops ++ firstPassWrites transactions blockHash height)
      (done ++ transactions.flatMap (newOutputs · height)) := by
  induction transactions generalizing σ ops done with
  | nil => simpa [LevelUpStore.parseOutputs, firstPassWrites] using hpass
  | cons tx rest ih =>
      have houts := (hpass.insertTransaction hopen tx.id).parseTxOutputs hopen (newOutputs tx height)
        (fun out hmem => newOutputs_height hmem) hpos
      have hrest := ih houts
      simpa [firstPassWrites, LevelUpStore.parseOutputs, LevelUpStore.parseTxOutputs] using hrest

end FirstPass

/-! ### What the first pass stages -/

open Provenance in
/-- The value the first pass of block `b` stages at a key, script records apart. -/
def Block.firstPassValue (b : Block) (height : Int) : Key → Option Value
  | .tx txid => if b.hasTx txid then some (.txRecord b.hash txid) else none
  | .txExact txid => if b.hasTx txid then some (.hash b.hash) else none
  | .txBlockRecovery hash txid =>
      if hash = b.hash ∧ b.hasTx txid then some (.hash txid) else none
  | .output script txid idx => outputValue script (b.created height ⟨txid, idx⟩)
  | .outHint txid idx => hintValue (b.created height ⟨txid, idx⟩)
  | .outBlk hash txid idx =>
      if hash = b.hash then hintValue (b.created height ⟨txid, idx⟩) else none
  | _ => none

theorem firstPassValue_of_mem {b : Block} (hnodup : (b.transactions.map Tx.id).Nodup)
    {height : Int} {k : Key} {op : WriteOp Value}
    (hmem : (k, op) ∈ firstPassWrites b.transactions b.hash height) :
    ∃ value, b.firstPassValue height k = some value ∧ op = .put value := by
  obtain ⟨tx, htx, hmem⟩ := List.mem_flatMap.mp hmem
  have hhas : b.hasTx tx.id = true := Block.hasTx_iff.mpr ⟨tx, htx, rfl⟩
  rcases List.mem_append.mp hmem with hrecord | hout
  · simp only [txWrites, List.mem_cons, Prod.mk.injEq, List.not_mem_nil, or_false] at hrecord
    rcases hrecord with ⟨rfl, rfl⟩ | ⟨rfl, rfl⟩ | ⟨rfl, rfl⟩ <;>
      simp [Block.firstPassValue, hhas]
  · obtain ⟨out, hout, hwrite⟩ := List.mem_flatMap.mp hout
    obtain ⟨i, hi⟩ := List.mem_iff_getElem?.mp hout
    obtain ⟨htxid, hindex, -⟩ := newOutputs_fields hi
    have hcreated : b.created height ⟨out.txHash, out.outputIndex⟩ = some out := by
      rw [htxid, hindex, Block.created_of_mem hnodup htx, hi]
    simp only [outputWrites, List.mem_cons, Prod.mk.injEq, List.not_mem_nil, or_false] at hwrite
    rcases hwrite with ⟨rfl, rfl⟩ | ⟨rfl, rfl⟩ | ⟨rfl, rfl⟩ <;>
      simp [Block.firstPassValue, hcreated, Provenance.outputValue, Provenance.hintValue]

theorem outputWrites_subset {b : Block} {height : Int} {o : OutPoint} {out : NewOutput}
    (hcreated : b.created height o = some out) {entry : Key × WriteOp Value}
    (hentry : entry ∈ outputWrites b.hash out) :
    entry ∈ firstPassWrites b.transactions b.hash height := by
  obtain ⟨tx, htx, -, hout⟩ := Block.created_eq_some hcreated
  refine List.mem_flatMap.mpr ⟨tx, htx, List.mem_append_right _ ?_⟩
  exact List.mem_flatMap.mpr ⟨out, List.mem_of_getElem? hout, hentry⟩

theorem txWrites_subset {b : Block} {height : Int} {txid : Hash} (hhas : b.hasTx txid = true)
    {entry : Key × WriteOp Value} (hentry : entry ∈ txWrites b.hash txid) :
    entry ∈ firstPassWrites b.transactions b.hash height := by
  obtain ⟨tx, htx, rfl⟩ := Block.hasTx_iff.mp hhas
  exact List.mem_flatMap.mpr ⟨tx, htx, List.mem_append_left _ hentry⟩

theorem mem_firstPassWrites {b : Block} {height : Int} {k : Key} {value : Value}
    (hvalue : b.firstPassValue height k = some value) :
    (k, .put value) ∈ firstPassWrites b.transactions b.hash height := by
  cases k with
  | tx txid =>
      obtain ⟨hhas, rfl⟩ : b.hasTx txid = true ∧ .txRecord b.hash txid = value := by
        simpa [Block.firstPassValue] using hvalue
      exact txWrites_subset hhas (by simp [txWrites])
  | txExact txid =>
      obtain ⟨hhas, rfl⟩ : b.hasTx txid = true ∧ .hash b.hash = value := by
        simpa [Block.firstPassValue] using hvalue
      exact txWrites_subset hhas (by simp [txWrites])
  | txBlockRecovery hash txid =>
      obtain ⟨⟨rfl, hhas⟩, rfl⟩ : (hash = b.hash ∧ b.hasTx txid = true) ∧ .hash txid = value := by
        simpa [Block.firstPassValue] using hvalue
      exact txWrites_subset hhas (by simp [txWrites])
  | output script txid idx =>
      obtain ⟨out, hcreated, hout⟩ := Option.bind_eq_some_iff.mp hvalue
      obtain ⟨rfl, rfl⟩ : out.scriptPubKey = script ∧ .output out.record = value := by
        simpa using hout
      obtain ⟨rfl, rfl⟩ := OutPoint.mk.inj (Block.created_fields hcreated).1
      exact outputWrites_subset hcreated (by simp [outputWrites])
  | outHint txid idx =>
      obtain ⟨out, hcreated, rfl⟩ := Option.map_eq_some_iff.mp hvalue
      obtain ⟨rfl, rfl⟩ := OutPoint.mk.inj (Block.created_fields hcreated).1
      exact outputWrites_subset hcreated (by simp [outputWrites])
  | outBlk hash txid idx =>
      obtain ⟨rfl, hhint⟩ : hash = b.hash ∧
          Provenance.hintValue (b.created height ⟨txid, idx⟩) = some value := by
        by_cases hhash : hash = b.hash
        · exact ⟨hhash, by simpa [Block.firstPassValue, hhash] using hvalue⟩
        · simp [Block.firstPassValue, hhash] at hvalue
      obtain ⟨out, hcreated, rfl⟩ := Option.map_eq_some_iff.mp hhint
      obtain ⟨rfl, rfl⟩ := OutPoint.mk.inj (Block.created_fields hcreated).1
      exact outputWrites_subset hcreated (by simp [outputWrites])
  | _ => cases hvalue

/-- After the first pass, a key outside the script families holds the block's own write, or what it
held before. -/
theorem staged_firstPassWrites {b : Block} (hnodup : (b.transactions.map Tx.id).Nodup)
    {σ : LevelUpStore} (hopen : σ.Open) (height : Int) (k : Key) :
    (σ.addTransactions (firstPassWrites b.transactions b.hash height)).staged k =
      match b.firstPassValue height k with
      | some value => some (.put value)
      | none => σ.staged k := by
  cases hvalue : b.firstPassValue height k with
  | some value =>
      refine hopen.staged_addTransactions_of_mem (mem_firstPassWrites hvalue) fun op' hmem => ?_
      obtain ⟨value', hvalue', rfl⟩ := firstPassValue_of_mem hnodup hmem
      rw [hvalue, Option.some.injEq] at hvalue'
      rw [hvalue']
  | none =>
      refine hopen.staged_addTransactions_of_notMem fun op hmem => ?_
      obtain ⟨value, hvalue', -⟩ := firstPassValue_of_mem hnodup hmem
      rw [hvalue] at hvalue'
      cases hvalue'

/-- The outputs of the first pass are the outputs the block creates. -/
theorem mem_outputs_iff {b : Block} (hnodup : (b.transactions.map Tx.id).Nodup) {height : Int}
    {out : NewOutput} :
    out ∈ b.transactions.flatMap (newOutputs · height) ↔
      b.created height out.outPoint = some out := by
  constructor
  · intro hmem
    obtain ⟨tx, htx, hout⟩ := List.mem_flatMap.mp hmem
    obtain ⟨i, hi⟩ := List.mem_iff_getElem?.mp hout
    obtain ⟨htxid, hindex, -⟩ := newOutputs_fields hi
    rw [NewOutput.outPoint, htxid, hindex, Block.created_of_mem hnodup htx, hi]
  · intro hcreated
    obtain ⟨tx, htx, -, hout⟩ := Block.created_eq_some hcreated
    exact List.mem_flatMap.mpr ⟨tx, htx, List.mem_of_getElem? hout⟩

theorem outputs_scripts (b : Block) (height : Int) :
    (b.transactions.flatMap (newOutputs · height)).map NewOutput.scriptPubKey = b.scripts := by
  simp only [Block.scripts, List.map_flatMap]
  refine List.flatMap_congr fun tx _ => ?_
  refine List.ext_getElem? fun i => ?_
  rw [List.getElem?_map, newOutputs_getElem?, List.getElem?_map, Option.map_map]
  rfl

end UtxoTracker

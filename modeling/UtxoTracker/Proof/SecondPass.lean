import UtxoTracker.Proof.FirstPass
/-!
# The second pass of a block

Staging one spend touches only the keys of the outpoint it spends, so spends of distinct outpoints
do not interfere: each has the effect it would have on its own.
-/

namespace UtxoTracker

open KeyedStore LevelUpStore

/-- The outpoint of an `O`, `H`, `K` or `M` key. -/
def Key.coin : Key → Option OutPoint
  | .output _ txid idx | .outHint txid idx => some ⟨txid, idx⟩
  | .outDel _ _ txid idx | .hintDel _ txid idx => some ⟨txid, idx⟩
  | _ => none

/-- `σ'` has the database and the caches of `σ`. -/
structure SameBase (σ σ' : LevelUpStore) : Prop where
  db : σ'.db = σ.db
  outputCache : σ'.outputCache = σ.outputCache
  knownScripts : σ'.knownScripts = σ.knownScripts

theorem SameBase.refl (σ : LevelUpStore) : SameBase σ σ := ⟨rfl, rfl, rfl⟩

theorem SameBase.trans {σ σ' σ'' : LevelUpStore} (hfirst : SameBase σ σ')
    (hsecond : SameBase σ' σ'') : SameBase σ σ'' :=
  ⟨hsecond.db.trans hfirst.db, hsecond.outputCache.trans hfirst.outputCache,
    hsecond.knownScripts.trans hfirst.knownScripts⟩

theorem SameBase.addTransactions {σ : LevelUpStore} (hopen : σ.Open)
    (ops : List (Key × WriteOp Value)) : SameBase σ (σ.addTransactions ops) :=
  ⟨hopen.addTransactions_db ops, addTransactions_outputCache ops, addTransactions_knownScripts ops⟩

/-! ### One spend -/

/-- Cancelling a staged write. -/
theorem removeTransaction_spec {σ : LevelUpStore} (hopen : σ.Open) {key : Key}
    (hstaged : σ.staged key ≠ none) (blockHash : Hash) :
    ∃ σ', σ.removeTransaction key blockHash = some σ' ∧ σ'.Open ∧ SameBase σ σ' ∧
      ∀ k, σ'.staged k = if key = k then none else σ.staged k := by
  obtain ⟨staged, hta⟩ := Option.isSome_iff_exists.mp hopen.1
  obtain ⟨deleted, hdta⟩ := Option.isSome_iff_exists.mp hopen.2
  have hget : staged[key]? ≠ none := by simpa [LevelUpStore.staged, hta] using hstaged
  obtain ⟨op, hop⟩ := Option.ne_none_iff_exists'.mp hget
  simp only [removeTransaction, hta, hdta, hop]
  refine ⟨_, rfl, ⟨rfl, rfl⟩, ⟨rfl, rfl, rfl⟩, fun k => ?_⟩
  simp [LevelUpStore.staged, hta, Std.ExtTreeMap.getElem?_erase]

/-- The value an in-batch spend keeps: the staged output, when an older block created it. -/
def recoveredValue (height : Int) (op : Option (WriteOp Value)) : Option Value :=
  match op with
  | some (.put (.output record)) =>
      if 0 ≤ record.h ∧ record.h < height then some (.output record) else none
  | _ => none

/-- What one spend in a block at `height` does to the staged writes `f`. -/
def spendStep (height : Int) (input : SpentInput) (found : Resolved)
    (f : Key → Option (WriteOp Value)) (k : Key) : Option (WriteOp Value) :=
  match found with
  | .missing | .onDisk _ none => f k
  | .onDisk script (some oVal) =>
      if k = input.hKey ∨ k = input.oKey script then some .del
      else if k = input.mKey then some (.put (.hash script))
      else if k = input.kKey script then some (.put oVal)
      else f k
  | .inMem script =>
      if k = input.hKey ∨ k = input.oKey script then none
      else
        match recoveredValue height (f (input.oKey script)) with
        | none => f k
        | some oVal =>
            if k = input.mKey then some (.put (.hash script))
            else if k = input.kKey script then some (.put oVal)
            else f k

/-- The lookups still hold: an output found in the batch is still staged there. -/
def Ready (σ : LevelUpStore) (input : SpentInput) (found : Resolved) : Prop :=
  ∀ script, found = .inMem script →
    σ.staged input.hKey ≠ none ∧ ∃ record, σ.staged (input.oKey script) = some (.put (.output record))

theorem spendStep_of_coin_ne {height : Int} {input : SpentInput} {found : Resolved}
    {f : Key → Option (WriteOp Value)} {k : Key} (hk : k.coin ≠ some input.outPoint) :
    spendStep height input found f k = f k := by
  have hH : k ≠ input.hKey := by rintro rfl; exact hk rfl
  have hO : ∀ script, k ≠ input.oKey script := by rintro script rfl; exact hk rfl
  have hM : k ≠ input.mKey := by rintro rfl; exact hk rfl
  have hK : ∀ script, k ≠ input.kKey script := by rintro script rfl; exact hk rfl
  cases found with
  | missing => rfl
  | inMem script =>
      simp only [spendStep, hH, hO, hM, hK, or_self, if_false]
      split <;> rfl
  | onDisk script oVal =>
      cases oVal with
      | none => rfl
      | some oVal => simp only [spendStep, hH, hO, hM, hK, or_self, if_false]

/-- A spend reads the staged writes at its own outpoint alone. -/
theorem spendStep_congr {height : Int} {input : SpentInput} {found : Resolved}
    {f g : Key → Option (WriteOp Value)}
    (hfg : ∀ k : Key, k.coin = some input.outPoint → f k = g k) {k : Key}
    (hk : k.coin = some input.outPoint) :
    spendStep height input found f k = spendStep height input found g k := by
  cases found with
  | missing => exact hfg k hk
  | inMem script =>
      have hO : f (input.oKey script) = g (input.oKey script) := hfg _ rfl
      simp only [spendStep, hO, hfg k hk]
  | onDisk script oVal =>
      cases oVal with
      | none => exact hfg k hk
      | some oVal => simp only [spendStep, hfg k hk]

theorem hKey_ne_oKey (input : SpentInput) (script : Hash) : input.hKey ≠ input.oKey script := by
  simp [SpentInput.hKey, SpentInput.oKey]

theorem spendBlockHeightInBatch_congr {σ τ : LevelUpStore} {blockHash : Hash}
    (hstaged : τ.staged (.block blockHash) = σ.staged (.block blockHash)) :
    τ.spendBlockHeightInBatch blockHash = σ.spendBlockHeightInBatch blockHash := by
  simp only [spendBlockHeightInBatch, getTransactionValue_eq, hstaged]

/-- An in-batch spend. -/
theorem stageSpend_inMem {σ : LevelUpStore} (hopen : σ.Open) {input : SpentInput} {script : Hash}
    {height : Int} (hready : Ready σ input (.inMem script))
    (hblock : σ.spendBlockHeightInBatch input.blockHash = some height) :
    ∃ σ', σ.stageSpend input (.inMem script) = .ok σ' ∧ σ'.Open ∧ SameBase σ σ' ∧
      ∀ k, σ'.staged k = spendStep height input (.inMem script) σ.staged k := by
  obtain ⟨hH, record, hO⟩ := hready script rfl
  obtain ⟨σ₁, hremove₁, hopen₁, hbase₁, hstaged₁⟩ :=
    removeTransaction_spec hopen (by rw [hO]; simp) input.blockHash
  have hH₁ : σ₁.staged input.hKey ≠ none := by
    rw [hstaged₁, if_neg (hKey_ne_oKey input script).symm]
    exact hH
  obtain ⟨σ₂, hremove₂, hopen₂, hbase₂, hstaged₂⟩ :=
    removeTransaction_spec hopen₁ hH₁ input.blockHash
  have hvalue : σ.getTransactionValue (input.oKey script) = some (.output record) := by
    rw [getTransactionValue_eq, hO]
  have hblock₂ : σ₂.spendBlockHeightInBatch input.blockHash = some height := by
    rw [← hblock]
    refine spendBlockHeightInBatch_congr ?_
    rw [hstaged₂, hstaged₁, if_neg (by simp [SpentInput.hKey]), if_neg (by simp [SpentInput.oKey])]
  have hstep : σ.stageSpend input (.inMem script) =
      .ok (σ₂.writeCrossBlockSpendRecovery input script (some (.output record))) := by
    simp only [stageSpend, unstageInMemorySpend, hremove₁, hremove₂, hvalue]
    rfl
  have hunstaged : ∀ k, σ₂.staged k =
      if k = input.hKey ∨ k = input.oKey script then none else σ.staged k := by
    intro k
    rw [hstaged₂, hstaged₁]
    by_cases hkH : k = input.hKey <;> by_cases hkO : k = input.oKey script <;>
      simp [hkH, hkO, eq_comm]
  by_cases hcross : 0 ≤ record.h ∧ record.h < height
  · have hwrite : σ₂.writeCrossBlockSpendRecovery input script (some (.output record)) =
        (σ₂.addTransaction input.mKey (.put (.hash script))).addTransaction (input.kKey script)
          (.put (.output record)) := by
      simp only [writeCrossBlockSpendRecovery, decodeOutput, Option.map_some, hblock₂]
      rw [if_neg (by omega), if_neg (by omega)]
    have hopen₃ := hopen₂.addTransaction input.mKey (.put (.hash script))
    refine ⟨_, hstep, ?_, ?_, fun k => ?_⟩
    · rw [hwrite]
      exact hopen₃.addTransaction _ _
    · rw [hwrite]
      exact (hbase₁.trans hbase₂).trans (SameBase.addTransactions hopen₂
        [(input.mKey, .put (.hash script)), (input.kKey script, .put (.output record))])
    · rw [hwrite, hopen₃.addTransaction_staged, hopen₂.addTransaction_staged, hunstaged]
      simp only [spendStep, hO, recoveredValue, if_pos hcross]
      by_cases hkM : k = input.mKey
      · subst hkM
        simp [SpentInput.mKey, SpentInput.kKey, SpentInput.hKey, SpentInput.oKey]
      · by_cases hkK : k = input.kKey script
        · subst hkK
          simp [SpentInput.mKey, SpentInput.kKey, SpentInput.hKey, SpentInput.oKey]
        · rw [if_neg (fun h => hkK h.symm), if_neg (fun h => hkM h.symm), if_neg hkM, if_neg hkK]
  · have hwrite : σ₂.writeCrossBlockSpendRecovery input script (some (.output record)) = σ₂ := by
      simp only [writeCrossBlockSpendRecovery, decodeOutput, Option.map_some, hblock₂]
      by_cases hneg : record.h < 0
      · rw [if_pos hneg]
      · rw [if_neg hneg, if_pos (by omega)]
    refine ⟨_, hstep, ?_, ?_, fun k => ?_⟩
    · rw [hwrite]
      exact hopen₂
    · rw [hwrite]
      exact hbase₁.trans hbase₂
    · rw [hwrite, hunstaged]
      simp only [spendStep, hO, recoveredValue, if_neg hcross]

/-- A spend of an output on disk. -/
theorem stageSpend_onDisk {σ : LevelUpStore} (hopen : σ.Open) (input : SpentInput) (script : Hash)
    (oVal : Value) (height : Int) :
    ∃ σ', σ.stageSpend input (.onDisk script (some oVal)) = .ok σ' ∧ σ'.Open ∧ SameBase σ σ' ∧
      ∀ k, σ'.staged k = spendStep height input (.onDisk script (some oVal)) σ.staged k := by
  have hopen₁ := hopen.addTransaction input.mKey (.put (.hash script))
  have hopen₂ := hopen₁.addTransaction (input.kKey script) (.put oVal)
  have hopen₃ := hopen₂.addTransaction (input.oKey script) .del
  refine ⟨_, rfl, hopen₃.addTransaction _ _, ?_, fun k => ?_⟩
  · exact SameBase.addTransactions hopen [(input.mKey, .put (.hash script)),
      (input.kKey script, .put oVal), (input.oKey script, .del), (input.hKey, .del)]
  · rw [hopen₃.addTransaction_staged, hopen₂.addTransaction_staged, hopen₁.addTransaction_staged,
      hopen.addTransaction_staged]
    simp only [spendStep]
    by_cases hkH : k = input.hKey
    · simp [hkH]
    by_cases hkO : k = input.oKey script
    · simp [hkO]
    by_cases hkM : k = input.mKey
    · subst hkM
      simp [SpentInput.mKey, SpentInput.kKey, SpentInput.hKey, SpentInput.oKey]
    by_cases hkK : k = input.kKey script
    · subst hkK
      simp [SpentInput.mKey, SpentInput.kKey, SpentInput.hKey, SpentInput.oKey]
    simp [hkH, hkO, hkM, hkK, Ne.symm hkH, Ne.symm hkO, Ne.symm hkM, Ne.symm hkK]

/-- **One spend**, whatever its lookup found. -/
theorem stageSpend_spec {σ : LevelUpStore} (hopen : σ.Open) {input : SpentInput} {found : Resolved}
    {height : Int} (hready : Ready σ input found)
    (hblock : σ.spendBlockHeightInBatch input.blockHash = some height) :
    ∃ σ', σ.stageSpend input found = .ok σ' ∧ σ'.Open ∧ SameBase σ σ' ∧
      ∀ k, σ'.staged k = spendStep height input found σ.staged k := by
  cases found with
  | missing => exact ⟨σ, rfl, hopen, .refl σ, fun _ => rfl⟩
  | inMem script => exact stageSpend_inMem hopen hready hblock
  | onDisk script oVal =>
      cases oVal with
      | none => exact ⟨σ, rfl, hopen, .refl σ, fun _ => rfl⟩
      | some oVal => exact stageSpend_onDisk hopen input script oVal height

/-! ### All spends of a block -/

/-- **Spends of distinct outpoints do not interfere.** -/
theorem stageSpends_spec {height : Int} {blockHash : Hash} (resolved : List (SpentInput × Resolved))
    (hnodup : (resolved.map fun entry => entry.1.outPoint).Nodup)
    (hhash : ∀ entry ∈ resolved, entry.1.blockHash = blockHash)
    {σ : LevelUpStore} (hopen : σ.Open) (hready : ∀ entry ∈ resolved, Ready σ entry.1 entry.2)
    (hblock : σ.spendBlockHeightInBatch blockHash = some height) :
    ∃ σ', stageSpends resolved σ = .ok σ' ∧ σ'.Open ∧ SameBase σ σ' ∧
      (∀ k : Key, (∀ entry ∈ resolved, k.coin ≠ some entry.1.outPoint) →
        σ'.staged k = σ.staged k) ∧
      ∀ entry ∈ resolved, ∀ k : Key, k.coin = some entry.1.outPoint →
        σ'.staged k = spendStep height entry.1 entry.2 σ.staged k := by
  induction resolved generalizing σ with
  | nil =>
      refine ⟨σ, rfl, hopen, .refl σ, fun _ _ => rfl, ?_⟩
      intro entry hentry
      cases hentry
  | cons entry rest ih =>
      obtain ⟨input, found⟩ := entry
      rw [List.map_cons, List.nodup_cons] at hnodup
      have hother : ∀ entry ∈ rest, entry.1.outPoint ≠ input.outPoint := fun entry hentry heq =>
        hnodup.1 (List.mem_map.mpr ⟨entry, hentry, heq⟩)
      have hinput : input.blockHash = blockHash := hhash (input, found) List.mem_cons_self
      obtain ⟨σ₁, hstep, hopen₁, hbase₁, hstaged₁⟩ :=
        stageSpend_spec hopen (hready (input, found) List.mem_cons_self) (hinput ▸ hblock)
      have hframe₁ : ∀ k : Key, k.coin ≠ some input.outPoint → σ₁.staged k = σ.staged k :=
        fun k hk => (hstaged₁ k).trans (spendStep_of_coin_ne hk)
      have hready₁ : ∀ entry ∈ rest, Ready σ₁ entry.1 entry.2 := by
        intro entry hentry script hscript
        have hne : some entry.1.outPoint ≠ some input.outPoint := by
          simpa using hother entry hentry
        obtain ⟨hH, record, hO⟩ := hready entry (List.mem_cons_of_mem _ hentry) script hscript
        exact ⟨by rw [hframe₁ entry.1.hKey hne]; exact hH, record,
          by rw [hframe₁ (entry.1.oKey script) hne]; exact hO⟩
      have hblock₁ : σ₁.spendBlockHeightInBatch blockHash = some height := by
        rw [← hblock]
        exact spendBlockHeightInBatch_congr (hframe₁ _ (by simp [Key.coin]))
      obtain ⟨σ₂, hrest, hopen₂, hbase₂, hframe₂, hspent₂⟩ := ih hnodup.2
        (fun entry hentry => hhash entry (List.mem_cons_of_mem _ hentry)) hopen₁ hready₁ hblock₁
      refine ⟨σ₂, ?_, hopen₂, hbase₁.trans hbase₂, ?_, ?_⟩
      · simp only [stageSpends, hstep]
        exact hrest
      · intro k hk
        rw [hframe₂ k fun entry hentry => hk entry (List.mem_cons_of_mem _ hentry)]
        exact hframe₁ k (hk (input, found) List.mem_cons_self)
      · intro entry hentry k hk
        rcases List.mem_cons.mp hentry with rfl | hin
        · rw [hframe₂ k fun entry' hentry' => ?_]
          · exact hstaged₁ k
          · rw [hk]
            simpa using (hother entry' hentry').symm
        · rw [hspent₂ entry hin k hk]
          refine spendStep_congr (fun k' hk' => hframe₁ k' ?_) hk
          rw [hk']
          simpa using hother entry hin

end UtxoTracker

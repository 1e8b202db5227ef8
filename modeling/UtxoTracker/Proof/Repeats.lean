import UtxoTracker.Proof.FirstPass
import UtxoTracker.Proof.Lookup
import UtxoTracker.Proof.Prune
import UtxoTracker.Proof.Start
import UtxoTracker.Tracker.Repeats
/-!
# Indexing a repeated transaction

Nothing here asks that a created outpoint is new. The first pass puts the block's coins over what
is there; a spend of a coin that the block itself puts takes that put back, and any other deletes
the coin on disk.
-/

namespace UtxoTracker

open KeyedStore LevelUpStore Provenance Recreation

/-- `O` and `H`. -/
def Key.isCoin : Key → Bool
  | .output _ _ _ | .outHint _ _ => true
  | _ => false

theorem Key.isScript_of_isCoin {k : Key} (hcoin : k.isCoin = true) : k.isScript = false := by
  cases k <;> first | rfl | cases hcoin

/-! ### The first pass -/

/-- Recording a script stages script records alone. -/
theorem stagedFrom_insertOutputScriptBlock {σ : LevelUpStore} (hopen : σ.Open) (script blockHash : Hash)
    (height : Int) :
    StagedFrom σ (σ.insertOutputScriptBlock script (some blockHash) height) [] := by
  obtain ⟨known, htrim⟩ := trimKnownScripts_eq σ
  simp only [insertOutputScriptBlock, htrim]
  have hknown : ∀ scripts : Finset Hash,
      StagedFrom σ ({ σ with knownScripts := scripts } : LevelUpStore) [] :=
    fun scripts => .of_caches hopen rfl rfl rfl
  split_ifs
  · exact hknown known
  · exact hknown _
  · exact hknown _
  · have hput := (hknown known).isOpen.addTransaction (.scriptBlk script) (.put (.scriptBlk height))
    have hputs := hput.addTransaction (.blkScript blockHash script) (.put .empty)
    refine ⟨hputs, ?_, fun k hk => ?_⟩
    · exact (hput.addTransaction_db _ _).trans ((hknown known).isOpen.addTransaction_db _ _)
    · have hS : Key.scriptBlk script ≠ k := by rintro rfl; cases hk
      have hZ : Key.blkScript blockHash script ≠ k := by rintro rfl; cases hk
      have hstaged : (((({ σ with knownScripts := known } : LevelUpStore).addTransaction
          (.scriptBlk script) (.put (.scriptBlk height))).addTransaction
          (.blkScript blockHash script) (.put .empty)).rememberScript script).staged k =
          ((({ σ with knownScripts := known } : LevelUpStore).addTransaction
          (.scriptBlk script) (.put (.scriptBlk height))).addTransaction
          (.blkScript blockHash script) (.put .empty)).staged k := rfl
      rw [hstaged, hput.addTransaction_staged, if_neg hZ,
        (hknown known).isOpen.addTransaction_staged, if_neg hS]
      rfl

theorem stagedFrom_parseTxOutput {σ : LevelUpStore} (hopen : σ.Open) (out : NewOutput)
    (blockHash : Hash) : StagedFrom σ (σ.parseTxOutput out blockHash) (outputWrites blockHash out) := by
  have hcache : StagedFrom σ (σ.cacheOutput out) [] := by
    unfold LevelUpStore.cacheOutput
    split_ifs
    · exact .of_caches hopen rfl rfl rfl
    · exact .refl hopen
  have hputs := hcache.trans hopen
    (.addTransactions hcache.isOpen ((outputWrites blockHash out).take 2))
  have hscript := hputs.trans hopen
    (stagedFrom_insertOutputScriptBlock hputs.isOpen out.scriptPubKey blockHash out.height)
  have hblock := hscript.trans hopen
    (.addTransactions hscript.isOpen ((outputWrites blockHash out).drop 2))
  rw [List.append_nil, List.nil_append, List.take_append_drop] at hblock
  exact hblock

theorem stagedFrom_foldl {α : Type} {step : LevelUpStore → α → LevelUpStore}
    {writes : α → List (Key × WriteOp Value)}
    (hstep : ∀ (σ : LevelUpStore) (x : α), σ.Open → StagedFrom σ (step σ x) (writes x))
    (xs : List α) {σ : LevelUpStore} (hopen : σ.Open) :
    StagedFrom σ (xs.foldl step σ) (xs.flatMap writes) := by
  induction xs generalizing σ with
  | nil => exact .refl hopen
  | cons x rest ih =>
      have hfirst := hstep σ x hopen
      exact hfirst.trans hopen (ih hfirst.isOpen)

/-- **The first pass** stages the block's writes, whatever the store holds. -/
theorem stagedFrom_parseOutputs {σ : LevelUpStore} (hopen : σ.Open) (transactions : List Tx)
    (blockHash : Hash) (height : Int) :
    StagedFrom σ (σ.parseOutputs transactions blockHash height)
      (firstPassWrites transactions blockHash height) := by
  refine stagedFrom_foldl (fun σ tx hσ => ?_) transactions hopen
  have htx : StagedFrom σ (σ.insertTransaction tx.id (some blockHash)) (txWrites blockHash tx.id) :=
    .addTransactions hσ (txWrites blockHash tx.id)
  exact htx.trans hσ
    (stagedFrom_foldl (fun σ out hσ => stagedFrom_parseTxOutput hσ out blockHash) _ htx.isOpen)

/-! ### The second pass -/

/-- The staged `O` and `H` of an input after its spend. -/
def coinAfterSpend (input : SpentInput) (found : Resolved) (before : Key → Option (WriteOp Value))
    (k : Key) : Option (WriteOp Value) :=
  match found with
  | .inMem script => if k = input.hKey ∨ k = input.oKey script then none else before k
  | .onDisk script (some _) =>
      if k = input.hKey ∨ k = input.oKey script then some .del else before k
  | _ => before k

theorem coinAfterSpend_of_coin_ne {input : SpentInput} {found : Resolved}
    {before : Key → Option (WriteOp Value)} {k : Key} (hk : k.coin ≠ some input.outPoint) :
    coinAfterSpend input found before k = before k := by
  have hH : k ≠ input.hKey := by rintro rfl; exact hk rfl
  have hO : ∀ script, k ≠ input.oKey script := by rintro script rfl; exact hk rfl
  rcases found with _ | script | ⟨script, _ | oVal⟩ <;> simp [coinAfterSpend, hH, hO]

theorem coinAfterSpend_congr {input : SpentInput} {found : Resolved}
    {f g : Key → Option (WriteOp Value)} {k : Key} (hk : g k = f k) :
    coinAfterSpend input found g k = coinAfterSpend input found f k := by
  rcases found with _ | script | ⟨script, _ | oVal⟩ <;> simp [coinAfterSpend, hk]

/-- A second spend of the same coin adds nothing. -/
theorem coinAfterSpend_idem {input : SpentInput} {found : Resolved}
    {f g : Key → Option (WriteOp Value)} {k : Key} (hk : g k = coinAfterSpend input found f k) :
    coinAfterSpend input found g k = coinAfterSpend input found f k := by
  rcases found with _ | script | ⟨script, _ | oVal⟩
  · exact hk
  · by_cases hcase : k = input.hKey ∨ k = input.oKey script
    · simp only [coinAfterSpend, if_pos hcase]
    · simpa only [coinAfterSpend, if_neg hcase] using hk
  · exact hk
  · by_cases hcase : k = input.hKey ∨ k = input.oKey script
    · simp only [coinAfterSpend, if_pos hcase]
    · simpa only [coinAfterSpend, if_neg hcase] using hk

theorem removeTransaction_ok {σ σ' : LevelUpStore} (hopen : σ.Open) {key : Key} {blockHash : Hash}
    (hremove : σ.removeTransaction key blockHash = some σ') :
    σ'.Open ∧ σ'.db = σ.db ∧ ∀ k, σ'.staged k = if key = k then none else σ.staged k := by
  by_cases hstaged : σ.staged key = none
  · obtain ⟨staged, hta⟩ := Option.isSome_iff_exists.mp hopen.1
    obtain ⟨deleted, hdta⟩ := Option.isSome_iff_exists.mp hopen.2
    have hget : staged[key]? = none := by simpa [LevelUpStore.staged, hta] using hstaged
    simp only [removeTransaction, hta, hdta, hget] at hremove
    cases hremove
  · obtain ⟨σ₁, hrun, hopen₁, hbase, hafter⟩ := removeTransaction_spec hopen hstaged blockHash
    obtain rfl := Option.some.inj (hrun.symm.trans hremove)
    exact ⟨hopen₁, hbase.db, hafter⟩

/-- The recovery records of an in-batch spend are no coins. -/
theorem writeCrossBlockSpendRecovery_coins {σ : LevelUpStore} (hopen : σ.Open) (input : SpentInput)
    (script : Hash) (oVal : Option Value) :
    (σ.writeCrossBlockSpendRecovery input script oVal).Open ∧
      (σ.writeCrossBlockSpendRecovery input script oVal).db = σ.db ∧
      ∀ k : Key, k.isCoin = true →
        (σ.writeCrossBlockSpendRecovery input script oVal).staged k = σ.staged k := by
  unfold writeCrossBlockSpendRecovery
  rcases oVal with _ | oVal
  · exact ⟨hopen, rfl, fun _ _ => rfl⟩
  simp only
  split
  · split_ifs
    · exact ⟨hopen, rfl, fun _ _ => rfl⟩
    · exact ⟨hopen, rfl, fun _ _ => rfl⟩
    · have hopen₁ := hopen.addTransaction input.mKey (.put (.hash script))
      refine ⟨hopen₁.addTransaction _ _, ?_, fun k hk => ?_⟩
      · rw [hopen₁.addTransaction_db, hopen.addTransaction_db]
      · have hM : input.mKey ≠ k := by rintro rfl; cases hk
        have hK : input.kKey script ≠ k := by rintro rfl; cases hk
        rw [hopen₁.addTransaction_staged, if_neg hK, hopen.addTransaction_staged, if_neg hM]
  · exact ⟨hopen, rfl, fun _ _ => rfl⟩

/-- One spend that does not throw. -/
theorem stageSpend_coins {σ σ' : LevelUpStore} (hopen : σ.Open) {input : SpentInput}
    {found : Resolved} (hrun : σ.stageSpend input found = .ok σ') :
    σ'.Open ∧ σ'.db = σ.db ∧
      ∀ k : Key, k.isCoin = true → σ'.staged k = coinAfterSpend input found σ.staged k := by
  cases found with
  | missing =>
      cases hrun
      exact ⟨hopen, rfl, fun _ _ => rfl⟩
  | inMem script =>
      simp only [stageSpend, unstageInMemorySpend] at hrun
      rcases hO : σ.removeTransaction (input.oKey script) input.blockHash with _ | σ₁
      · rw [hO] at hrun
        cases hrun
      rw [hO] at hrun
      simp only at hrun
      rcases hH : σ₁.removeTransaction input.hKey input.blockHash with _ | σ₂
      · rw [hH] at hrun
        cases hrun
      rw [hH] at hrun
      cases hrun
      obtain ⟨hopen₁, hdb₁, hstaged₁⟩ := removeTransaction_ok hopen hO
      obtain ⟨hopen₂, hdb₂, hstaged₂⟩ := removeTransaction_ok hopen₁ hH
      obtain ⟨hopen₃, hdb₃, hstaged₃⟩ := writeCrossBlockSpendRecovery_coins hopen₂ input script
        (σ.getTransactionValue (input.oKey script))
      refine ⟨hopen₃, hdb₃.trans (hdb₂.trans hdb₁), fun k hk => ?_⟩
      rw [hstaged₃ k hk, hstaged₂, hstaged₁, coinAfterSpend]
      simp only [eq_comm (b := k)]
      by_cases hkH : k = input.hKey <;> by_cases hkO : k = input.oKey script <;> simp [hkH, hkO]
  | onDisk script oVal =>
      rcases oVal with _ | oVal
      · cases hrun
        exact ⟨hopen, rfl, fun _ _ => rfl⟩
      obtain ⟨σ₁, hstep, hopen₁, hbase, hstaged⟩ := stageSpend_onDisk hopen input script oVal 0
      obtain rfl := Except.ok.inj (hstep.symm.trans hrun)
      refine ⟨hopen₁, hbase.db, fun k hk => ?_⟩
      have hM : k ≠ input.mKey := by rintro rfl; cases hk
      have hK : k ≠ input.kKey script := by rintro rfl; cases hk
      rw [hstaged k]
      simp only [spendStep, coinAfterSpend, hM, hK, if_false]

/-- **All spends that do not throw.** A coin no input names is left alone; one that some inputs name,
all finding the same, is spent once. -/
theorem stageSpends_coins {resolved : List (SpentInput × Resolved)} {σ σ' : LevelUpStore}
    (hopen : σ.Open) (hrun : stageSpends resolved σ = .ok σ') :
    σ'.Open ∧ σ'.db = σ.db ∧
      (∀ k : Key, k.isCoin = true → (∀ entry ∈ resolved, k.coin ≠ some entry.1.outPoint) →
        σ'.staged k = σ.staged k) ∧
      ∀ (input : SpentInput) (found : Resolved) (k : Key), k.isCoin = true →
        k.coin = some input.outPoint → (∃ entry ∈ resolved, entry.1.outPoint = input.outPoint) →
        (∀ entry ∈ resolved, entry.1.outPoint = input.outPoint →
          ∀ before, coinAfterSpend entry.1 entry.2 before k = coinAfterSpend input found before k) →
        σ'.staged k = coinAfterSpend input found σ.staged k := by
  induction resolved generalizing σ with
  | nil =>
      cases hrun
      refine ⟨hopen, rfl, fun _ _ _ => rfl, fun _ _ _ _ _ hnone => ?_⟩
      obtain ⟨entry, hentry, -⟩ := hnone
      cases hentry
  | cons first rest ih =>
      obtain ⟨spent, resolution⟩ := first
      simp only [stageSpends] at hrun
      rcases hstep : σ.stageSpend spent resolution with message | σ₁
      · rw [hstep] at hrun
        cases hrun
      rw [hstep] at hrun
      obtain ⟨hopen₁, hdb₁, hstaged₁⟩ := stageSpend_coins hopen hstep
      obtain ⟨hopen', hdb', hframe, hspent⟩ := ih hopen₁ hrun
      refine ⟨hopen', hdb'.trans hdb₁, fun k hcoin hk => ?_, ?_⟩
      · rw [hframe k hcoin fun entry hentry => hk entry (List.mem_cons_of_mem _ hentry),
          hstaged₁ k hcoin]
        exact coinAfterSpend_of_coin_ne (hk _ List.mem_cons_self)
      intro input found k hcoin hk hsome hsame
      by_cases hrest : ∃ entry ∈ rest, entry.1.outPoint = input.outPoint
      · rw [hspent input found k hcoin hk hrest fun entry hentry =>
          hsame entry (List.mem_cons_of_mem _ hentry)]
        by_cases hfirst : spent.outPoint = input.outPoint
        · refine coinAfterSpend_idem ?_
          rw [hstaged₁ k hcoin]
          exact hsame _ List.mem_cons_self hfirst _
        · refine coinAfterSpend_congr ?_
          rw [hstaged₁ k hcoin]
          refine coinAfterSpend_of_coin_ne ?_
          rw [hk]
          simpa [eq_comm] using hfirst
      · have hfirst : spent.outPoint = input.outPoint := by
          obtain ⟨entry, hentry, heq⟩ := hsome
          rcases List.mem_cons.mp hentry with rfl | hin
          · exact heq
          · exact absurd ⟨entry, hin, heq⟩ hrest
        rw [hframe k hcoin fun entry hentry heq => hrest ⟨entry, hentry, ?_⟩, hstaged₁ k hcoin]
        · exact hsame _ List.mem_cons_self hfirst _
        · rw [hk] at heq
          exact (Option.some.inj heq).symm

/-! ### One block -/

/-- A reader of the store finds the records of some coins, and no other coin record. -/
structure CoinRecords (read : Key → Option Value) (coins : OutPoint → Option NewOutput) : Prop where
  hint : ∀ txid idx, read (.outHint txid idx) = hintValue (coins ⟨txid, idx⟩)
  output : ∀ script txid idx, read (.output script txid idx) = outputValue script (coins ⟨txid, idx⟩)

theorem CoinRecords.congr {read read' : Key → Option Value} {coins : OutPoint → Option NewOutput}
    (hrecords : CoinRecords read coins) (hsame : ∀ k : Key, k.isCoin = true → read' k = read k) :
    CoinRecords read' coins where
  hint txid idx := (hsame _ rfl).trans (hrecords.hint txid idx)
  output script txid idx := (hsame _ rfl).trans (hrecords.output script txid idx)

/-- The coins after a block. A coin that the block both puts and spends is as it was. -/
def coinsAfter (b : Block) (height : Int) (coins : OutPoint → Option NewOutput) (o : OutPoint) :
    Option NewOutput :=
  if o ∈ b.spent then if (b.created height o).isSome then coins o else none
  else (b.created height o).or (coins o)

/-- What the lookups of the second pass find. -/
def repeatFound (b : Block) (height : Int) (coins : OutPoint → Option NewOutput) (o : OutPoint) :
    Resolved :=
  match b.created height o with
  | some out => .inMem out.scriptPubKey
  | none =>
      match coins o with
      | some coin => .onDisk coin.scriptPubKey (some (.output coin.record))
      | none => .missing

section Block

variable {b : Block} {height : Int} {coins : OutPoint → Option NewOutput} {σ : LevelUpStore}

theorem hintLookup_repeat (hrecords : CoinRecords (fun k => σ.db[k]?) coins)
    (hstaged : ∀ k : Key, k.isCoin = true → σ.staged k = (b.firstPassValue height k).map .put)
    (input : SpentInput) {found : Resolved}
    (hfound : LookupOf σ input (σ.hintLookup input) found) (before : Key → Option (WriteOp Value))
    (k : Key) :
    coinAfterSpend input found before k =
      coinAfterSpend input (repeatFound b height coins input.outPoint) before k := by
  have hH : σ.getTransactionValue input.hKey = hintValue (b.created height input.outPoint) := by
    rw [getTransactionValue_eq, hstaged _ rfl]
    have hvalue : b.firstPassValue height input.hKey =
        hintValue (b.created height input.outPoint) := rfl
    rw [hvalue]
    cases hintValue (b.created height input.outPoint) <;> rfl
  unfold repeatFound
  rcases hcreated : b.created height input.outPoint with _ | out
  · have hdisk : σ.db[input.hKey]? = hintValue (coins input.outPoint) := hrecords.hint _ _
    rw [hcreated] at hH
    rcases hcoin : coins input.outPoint with _ | coin
    · rw [hcoin] at hdisk
      have hlookup : σ.hintLookup input = .missing := by
        simp [hintLookup, hH, hdisk]
      rw [hlookup] at hfound
      rw [show found = .missing from hfound]
    · rw [hcoin] at hdisk
      have hlookup : σ.hintLookup input = .onDisk coin.scriptPubKey none := by
        simp [hintLookup, hH, hdisk, decodeHash]
      rw [hlookup] at hfound
      have hO : σ.db[input.oKey coin.scriptPubKey]? = some (.output coin.record) := by
        have hget := hrecords.output coin.scriptPubKey input.prevTxHash input.prevOutputIndex
        rw [show (⟨input.prevTxHash, input.prevOutputIndex⟩ : OutPoint) = input.outPoint from rfl,
          hcoin, outputValue_some, if_pos rfl] at hget
        exact hget
      rcases hfound with ⟨record, -, rfl⟩ | hread
      · rfl
      · rw [hread, hO]
  · rw [hcreated] at hH
    have hlookup : σ.hintLookup input = .inMem out.scriptPubKey := by
      simp [hintLookup, hH, decodeHash]
    rw [hlookup] at hfound
    rw [show found = .inMem out.scriptPubKey from hfound]

/-- The batch after both passes, over the coins on disk. -/
theorem parseBlockTransactions_staged {σ' : LevelUpStore} (hopen : σ.Open)
    (hfresh : ∀ k : Key, k.isCoin = true → σ.staged k = none)
    (hnodup : (b.transactions.map Tx.id).Nodup) (hrecords : CoinRecords (fun k => σ.db[k]?) coins)
    (hrun : σ.parseBlockTransactions b.transactions b.hash height = .ok σ') :
    σ'.Open ∧ σ'.db = σ.db ∧
      ∀ (o : OutPoint) (k : Key), k.isCoin = true → k.coin = some o →
        σ'.staged k = if o ∈ b.spent then
            coinAfterSpend ⟨o.txid, o.index, b.hash⟩ (repeatFound b height coins o)
              (fun k => (b.firstPassValue height k).map .put) k
          else (b.firstPassValue height k).map .put := by
  have hpass := stagedFrom_parseOutputs hopen b.transactions b.hash height
  have hstaged : ∀ k : Key, k.isCoin = true →
      (σ.parseOutputs b.transactions b.hash height).staged k =
        (b.firstPassValue height k).map .put := by
    intro k hk
    rw [hpass.staged k (Key.isScript_of_isCoin hk), staged_firstPassWrites hnodup hopen]
    rcases b.firstPassValue height k with _ | value
    · exact hfresh k hk
    · rfl
  have hrecords₂ : CoinRecords (fun k => (σ.parseOutputs b.transactions b.hash height).db[k]?)
      coins := by
    rw [hpass.db]
    exact hrecords
  obtain ⟨σ₂, hσ₂⟩ : ∃ σ₂, σ.parseOutputs b.transactions b.hash height = σ₂ := ⟨_, rfl⟩
  rw [hσ₂] at hpass hstaged hrecords₂
  obtain ⟨⟨σ₃, resolved⟩, hlook⟩ : ∃ looked, outputLookups
      ((removeInputs b.transactions b.hash).map fun input => (input, σ₂.hintLookup input)) σ₂ =
        looked := ⟨_, rfl⟩
  obtain ⟨⟨cache, hstore, -⟩, hfst, hfound⟩ := outputLookups_spec
    ((removeInputs b.transactions b.hash).map fun input => (input, σ₂.hintLookup input)) σ₂
  rw [hlook] at hstore hfst hfound
  rw [List.map_map] at hfst
  have hinputs : resolved.map Prod.fst = removeInputs b.transactions b.hash :=
    hfst.trans (List.map_id _)
  simp only [parseBlockTransactions, removeOutputsWithInputsBatch, hσ₂, hlook] at hrun
  have hσ₃ : σ₃ = { σ₂ with outputCache := cache } := hstore
  subst hσ₃
  obtain ⟨hopen', hdb, hframe, hspent⟩ := stageSpends_coins
    (show ({ σ₂ with outputCache := cache } : LevelUpStore).Open from hpass.isOpen) hrun
  refine ⟨hopen', hdb.trans hpass.db, fun o k hcoin hk => ?_⟩
  -- The looked-up inputs name the spent outpoints.
  have hnames : o ∈ b.spent ↔ ∃ entry ∈ resolved, entry.1.outPoint = o := by
    rw [← removeInputs_outPoint, ← hinputs, List.map_map, List.mem_map]
    rfl
  have hresolved : ∀ entry ∈ resolved, ∀ before k, coinAfterSpend entry.1 entry.2 before k =
      coinAfterSpend entry.1 (repeatFound b height coins entry.1.outPoint) before k := by
    intro entry hentry before k
    obtain ⟨hint, hhint, hlookup⟩ := hfound entry hentry
    obtain ⟨input, -, heq⟩ := List.mem_map.mp hhint
    obtain ⟨rfl, rfl⟩ := Prod.mk.inj heq
    exact hintLookup_repeat hrecords₂ hstaged entry.1 hlookup before k
  have hsame : ∀ before : Key → Option (WriteOp Value), ∀ input : SpentInput, ∀ found k,
      input.outPoint = o →
      coinAfterSpend input found before k =
        coinAfterSpend ⟨o.txid, o.index, b.hash⟩ found before k := by
    rintro before ⟨txid, idx, blockHash⟩ found k rfl
    rfl
  have hbefore : ({ σ₂ with outputCache := cache } : LevelUpStore).staged k =
      (b.firstPassValue height k).map .put := hstaged k hcoin
  by_cases hmem : o ∈ b.spent
  · rw [if_pos hmem, hspent ⟨o.txid, o.index, b.hash⟩ (repeatFound b height coins o) k hcoin hk
      (hnames.mp hmem)]
    · exact coinAfterSpend_congr hbefore
    · intro entry hentry heq before
      have ho : entry.1.outPoint = o := heq
      rw [hresolved entry hentry, ho]
      exact hsame before entry.1 _ k ho
  · rw [if_neg hmem, hframe k hcoin]
    · exact hbefore
    · intro entry hentry heq
      rw [hk] at heq
      exact hmem (hnames.mpr ⟨entry, hentry, (Option.some.inj heq).symm⟩)

/-- **One block.** Once the batch is committed the coin records are those of the coins after the
block, as long as a coin put over another has its script. -/
theorem parseBlockTransactions_coins {σ' : LevelUpStore} (hopen : σ.Open)
    (hfresh : ∀ k : Key, k.isCoin = true → σ.staged k = none)
    (hnodup : (b.transactions.map Tx.id).Nodup) (hrecords : CoinRecords (fun k => σ.db[k]?) coins)
    (hscript : ∀ o out coin, b.created height o = some out → coins o = some coin →
      coin.scriptPubKey = out.scriptPubKey)
    (hrun : σ.parseBlockTransactions b.transactions b.hash height = .ok σ') :
    CoinRecords σ'.effective (coinsAfter b height coins) := by
  obtain ⟨-, hdb, hstaged⟩ := parseBlockTransactions_staged hopen hfresh hnodup hrecords hrun
  have hdisk := hrecords.hint
  have hdisk' := hrecords.output
  refine ⟨fun txid idx => ?_, fun script txid idx => ?_⟩
  · rw [effective, hdb, hdisk, hstaged ⟨txid, idx⟩ _ rfl rfl]
    have hvalue : b.firstPassValue height (.outHint txid idx) =
        hintValue (b.created height ⟨txid, idx⟩) := rfl
    unfold coinsAfter repeatFound
    rcases hcreated : b.created height ⟨txid, idx⟩ with _ | out <;>
      rcases hcoin : coins ⟨txid, idx⟩ with _ | coin <;>
      by_cases hspent : (⟨txid, idx⟩ : OutPoint) ∈ b.spent <;>
      simp [hvalue, hcreated, hspent, coinAfterSpend, SpentInput.hKey]
  · rw [effective, hdb, hdisk', hstaged ⟨txid, idx⟩ _ rfl rfl]
    have hvalue : b.firstPassValue height (.output script txid idx) =
        outputValue script (b.created height ⟨txid, idx⟩) := rfl
    unfold coinsAfter repeatFound
    rcases hcreated : b.created height ⟨txid, idx⟩ with _ | out
    · rcases hcoin : coins ⟨txid, idx⟩ with _ | coin
      · simp [hvalue, hcreated, coinAfterSpend]
      rcases eq_or_ne script coin.scriptPubKey with rfl | hof
      · by_cases hspent : (⟨txid, idx⟩ : OutPoint) ∈ b.spent <;>
          simp [hvalue, hcreated, hspent, coinAfterSpend, SpentInput.hKey, SpentInput.oKey]
      · by_cases hspent : (⟨txid, idx⟩ : OutPoint) ∈ b.spent <;>
          simp [hvalue, hcreated, hspent, hof, hof.symm, coinAfterSpend, SpentInput.hKey,
            SpentInput.oKey]
    · have hsame : ∀ coin, coins ⟨txid, idx⟩ = some coin → coin.scriptPubKey = out.scriptPubKey :=
        fun coin => hscript _ out coin hcreated
      have hown : outputValue script (coins ⟨txid, idx⟩) =
          (coins ⟨txid, idx⟩).bind fun coin =>
            if out.scriptPubKey = script then some (.output coin.record) else none := by
        rcases hcoin : coins ⟨txid, idx⟩ with _ | coin
        · rfl
        · rw [outputValue_some, hsame coin hcoin]
          rfl
      rcases eq_or_ne script out.scriptPubKey with rfl | hof
      · by_cases hspent : (⟨txid, idx⟩ : OutPoint) ∈ b.spent <;>
          simp [hvalue, hcreated, hspent, coinAfterSpend, SpentInput.hKey, SpentInput.oKey]
      · by_cases hspent : (⟨txid, idx⟩ : OutPoint) ∈ b.spent <;>
          simp [hvalue, hcreated, hspent, hown, hof, hof.symm, coinAfterSpend, SpentInput.hKey,
            SpentInput.oKey]

end Block

/-! ### The run -/

section Run

variable {coins : OutPoint → Option NewOutput} {t t' : Tracker} {b : Block}

/-- A write elsewhere leaves the coins a reader sees. -/
theorem effective_addTransaction_of_isCoin {σ : LevelUpStore} (hopen : σ.Open) {key : Key}
    (hkey : key.isCoin = false) (op : WriteOp Value) {k : Key} (hk : k.isCoin = true) :
    (σ.addTransaction key op).effective k = σ.effective k := by
  have hne : key ≠ k := by
    rintro rfl
    rw [hk] at hkey
    cases hkey
  rw [effective, effective, hopen.addTransaction_db, hopen.addTransaction_staged, if_neg hne]

theorem addToLastBlocks_coins (hopen : t.db.Open) (blockHash : Hash) :
    (t.addToLastBlocks blockHash).db.Open ∧
      ∀ k : Key, k.isCoin = true →
        (t.addToLastBlocks blockHash).db.effective k = t.db.effective k := by
  have hstored := hopen.addTransaction (.storedBlk blockHash) (.put .empty)
  have hdropped : ∀ blocks, (Tracker.dropDeleted (t.db.addLastStoredBlock blockHash) blocks).Open :=
    fun blocks => ⟨hstored.1, Option.isSome_map.trans hstored.2⟩
  have heffective : ∀ (blocks : List Hash) (k : Key), k.isCoin = true →
      (Tracker.dropDeleted (t.db.addLastStoredBlock blockHash) blocks).effective k =
        t.db.effective k := fun blocks k hk =>
    effective_addTransaction_of_isCoin hopen
      (show (Key.storedBlk blockHash).isCoin = false from rfl) (.put .empty) hk
  unfold Tracker.addToLastBlocks Tracker.recordUndoWindowWatermark
  dsimp only
  split
  · exact ⟨hdropped _, heffective _⟩
  · refine ⟨(hdropped _).addTransaction _ _, fun k hk => ?_⟩
    rw [effective_addTransaction_of_isCoin (hdropped _) rfl _ hk]
    exact heffective _ k hk

/-- The batch of one block holds the coins after it. -/
theorem indexNextBlock_coins (hidle : t.blocksQuantity = 0)
    (hnodup : (b.transactions.map Tx.id).Nodup)
    (hrecords : CoinRecords (fun k => t.db.db[k]?) coins)
    (hscript : ∀ o out coin, b.created (t.lastProcessedBlockIndex + 1) o = some out →
      coins o = some coin → coin.scriptPubKey = out.scriptPubKey)
    (hrun : t.indexNextBlock b = some (.ok t')) :
    t'.db.Open ∧ t'.lastProcessedBlockIndex = t.lastProcessedBlockIndex + 1 ∧
      CoinRecords t'.db.effective (coinsAfter b (t.lastProcessedBlockIndex + 1) coins) := by
  have hopen : t.db.beginTransaction.Open := open_beginTransaction
  have hblock := hopen.addTransaction (.block b.hash)
    (.put (.block ⟨t.lastProcessedBlockIndex + 1, b.timestamp, b.prevHash⟩))
  obtain ⟨σ, hσ⟩ : ∃ σ, t.db.beginTransaction.insertBlock b.hash (t.lastProcessedBlockIndex + 1)
    b.timestamp b.prevHash = σ := ⟨_, rfl⟩
  have hopenσ : σ.Open := hσ ▸ hblock
  have hdb : σ.db = t.db.db := hσ ▸ hopen.addTransaction_db _ _
  have hfresh : ∀ k : Key, k.isCoin = true → σ.staged k = none := by
    intro k hk
    have hne : Key.block b.hash ≠ k := by rintro rfl; cases hk
    rw [← hσ]
    exact (hopen.addTransaction_staged _ _ k).trans (by rw [if_neg hne, beginTransaction_staged])
  rw [Tracker.indexNextBlock] at hrun
  split_ifs at hrun with hparent
  simp only [Tracker.stageBlock, if_pos hidle, hσ, Option.some.injEq] at hrun
  rcases hparse : σ.parseBlockTransactions b.transactions b.hash (t.lastProcessedBlockIndex + 1) with
    message | σ₂
  · rw [hparse] at hrun
    cases hrun
  rw [hparse] at hrun
  cases hrun
  have hcoins := parseBlockTransactions_coins hopenσ hfresh hnodup (hdb.symm ▸ hrecords) hscript hparse
  have hopen₂ := (parseBlockTransactions_staged hopenσ hfresh hnodup (hdb.symm ▸ hrecords) hparse).1
  obtain ⟨hopen', hsame⟩ := addToLastBlocks_coins (t := { t with db := σ₂ }) hopen₂ b.hash
  exact ⟨hopen', rfl, hcoins.congr hsame⟩

theorem commitBatch_coins (hopen : t.db.Open) (hrecords : CoinRecords t.db.effective coins)
    {blockHash : Hash} {height : Int} (hrun : t.commitBatch blockHash height = .ok t') :
    CoinRecords (fun k => t'.db.db[k]?) coins ∧
      t'.lastProcessedBlockIndex = t.lastProcessedBlockIndex := by
  have hheight := hopen.addTransaction .lastBlockHeight (.put (.hexText height))
  have hhash := hheight.addTransaction .lastBlockHash (.put (.hashText blockHash))
  have htip : ∀ k : Key, k.isCoin = true →
      ((t.db.setLastBlockHeight height).setLastBlockHash blockHash).effective k =
        t.db.effective k := fun k hk =>
    (effective_addTransaction_of_isCoin hheight rfl _ hk).trans
      (effective_addTransaction_of_isCoin hopen rfl _ hk)
  obtain ⟨σ, hσ, hopenσ, hsame⟩ : ∃ σ, (if t.pendingKMCleanup = [] then
      (t.db.setLastBlockHeight height).setLastBlockHash blockHash
      else ((t.db.setLastBlockHeight height).setLastBlockHash blockHash).addTransaction
        .pendingCleanup (.put (.hashList t.pendingKMCleanup))) = σ ∧ σ.Open ∧
      ∀ k : Key, k.isCoin = true → σ.effective k = t.db.effective k := by
    refine ⟨_, rfl, ?_⟩
    split_ifs
    · exact ⟨hhash, htip⟩
    · exact ⟨hhash.addTransaction _ _, fun k hk =>
        (effective_addTransaction_of_isCoin hhash rfl _ hk).trans (htip k hk)⟩
  obtain ⟨σ', hend, hget, -⟩ := hopenσ.endTransaction
  simp only [Tracker.commitBatch, hσ, hend] at hrun
  cases hrun
  exact ⟨hrecords.congr fun k hk => (hget k).trans (hsame k hk), rfl⟩

theorem cleanupAgedBlocks_coins (hrecords : CoinRecords (fun k => t.db.db[k]?) coins)
    (hrun : t.cleanupAgedBlocks = .ok t') :
    CoinRecords (fun k => t'.db.db[k]?) coins ∧
      t'.lastProcessedBlockIndex = t.lastProcessedBlockIndex := by
  rw [Tracker.cleanupAgedBlocks] at hrun
  split_ifs at hrun with hpending
  · cases hrun
    exact ⟨hrecords, rfl⟩
  have hopen : t.db.beginTransaction.Open := open_beginTransaction
  have hwrote := (wrote_foldl_prune t.toClean hopen rfl onlyDeletes_beginTransaction).trans
    (Wrote.addTransactions [(.pendingCleanup, .del)])
  obtain ⟨σ', hend, hget, -⟩ := (hwrote.isOpen hopen).endTransaction
  simp only [addTransactions, List.foldl_cons, List.foldl_nil] at hend
  simp only [bind, Except.bind, hend] at hrun
  cases hrun
  refine ⟨hrecords.congr fun k hk => ?_, rfl⟩
  rw [hget k, effective_cleanup t.toClean hwrote, if_neg]
  rintro (rfl | ⟨hash, -, rfl | hundo⟩)
  · cases hk
  · cases hk
  · cases k <;> simp [Key.isCoin, Key.undoBlock] at hk hundo

theorem mem_creations_history {chain : Chain} {o : OutPoint} {coin : NewOutput} :
    coin ∈ creations (history chain o) ↔
      ∃ c rest, c :: rest <:+ chain ∧ c.created rest.length o = some coin := by
  induction chain with
  | nil => simp [history, creations]
  | cons b chain ih =>
      rw [history, creations, List.mem_append, ih, Option.mem_toList]
      constructor
      · rintro (⟨c, rest, hsuffix, hcreated⟩ | hcreated)
        · exact ⟨c, rest, hsuffix.trans (List.suffix_cons b chain), hcreated⟩
        · exact ⟨b, chain, List.suffix_rfl, hcreated⟩
      · rintro ⟨c, rest, hsuffix, hcreated⟩
        rcases suffix_cons_iff.mp hsuffix with ⟨rfl, rfl⟩ | hbelow
        · exact Or.inr hcreated
        · exact Or.inl ⟨c, rest, hbelow, hcreated⟩

/-- A coin put over an earlier one has its script. -/
theorem RepeatableBlock.same_script {chain : Chain} (hblock : RepeatableBlock chain b) {o : OutPoint}
    {out coin : NewOutput} (hcreated : b.created chain.length o = some out)
    (hearlier : coin ∈ creations (history chain o)) : coin.scriptPubKey = out.scriptPubKey := by
  obtain ⟨c, rest, hsuffix, hcoin⟩ := mem_creations_history.mp hearlier
  obtain ⟨tx, htx, hid, hout⟩ := Block.created_eq_some hcreated
  obtain ⟨earlier, hmem, hid', hcoin⟩ := Block.created_eq_some hcoin
  have houts := hblock.same_outs tx htx c (hsuffix.subset List.mem_cons_self) earlier hmem
    (hid'.trans hid.symm)
  rw [newOutputs_getElem?] at hout hcoin
  rw [houts] at hcoin
  obtain ⟨output, hget, rfl⟩ := Option.map_eq_some_iff.mp hout
  obtain ⟨output', hget', rfl⟩ := Option.map_eq_some_iff.mp hcoin
  obtain rfl := Option.some.inj (hget.symm.trans hget')
  rfl

theorem coinsAfter_keptCoinAt (b : Block) (chain : Chain) :
    coinsAfter b chain.length (keptCoinAt chain) = keptCoinAt (b :: chain) := by
  funext o
  rw [coinsAfter]
  simp only [keptCoinAt, history, overwriting]
  by_cases hspent : o ∈ b.spent <;> rcases b.created chain.length o with _ | out <;> simp [hspent]

/-- What the live store holds between two blocks. -/
structure IndexedEach (chain : Chain) (t : Tracker) : Prop where
  idle : t.blocksQuantity = 0
  cursor : t.lastProcessedBlockIndex + 1 = chain.length
  coins : CoinRecords (fun k => t.db.db[k]?) (keptCoinAt chain)

/-- **One block, indexed and flushed.** -/
theorem IndexedEach.indexAndFlush {chain : Chain} (hindexed : IndexedEach chain t)
    (hblock : RepeatableBlock chain b) (hrun : t.indexAndFlush b = some t') :
    IndexedEach (b :: chain) t' := by
  unfold Tracker.indexAndFlush at hrun
  split at hrun
  · next t₁ hindex =>
      obtain ⟨hopen, hheight, hstaged⟩ := indexNextBlock_coins hindexed.idle hblock.ids_nodup
        hindexed.coins (fun o out coin hcreated hkept =>
          hblock.same_script (hindexed.cursor ▸ hcreated) (mem_creations_of_overwriting hkept)) hindex
      rw [hindexed.cursor, coinsAfter_keptCoinAt] at hstaged
      split at hrun
      · next t₂ hcommit =>
          obtain ⟨hcommitted, hheight₂⟩ := commitBatch_coins hopen hstaged hcommit
          split at hrun
          · next t₃ hcleanup =>
              obtain ⟨hclean, hheight₃⟩ := cleanupAgedBlocks_coins hcommitted hcleanup
              cases hrun
              refine ⟨rfl, ?_, hclean⟩
              have hcursor := hindexed.cursor
              simp only [Tracker.finishFlushedBlock, List.length_cons]
              omega
          · cases hrun
      · cases hrun
  · cases hrun

/-- **The live store**: block by block it holds the coins that are kept. -/
theorem RepeatableChain.indexEach {chain : Chain} (hchain : RepeatableChain chain) {undoBlocks : Nat}
    (hrun : Tracker.indexEach undoBlocks chain = some t) : IndexedEach chain t := by
  induction chain generalizing t with
  | nil =>
      rw [Tracker.indexEach, start_empty] at hrun
      cases hrun
      have hempty := durable_stamped.indexes
      obtain ⟨hcursor, -⟩ := durable_stamped.load undoBlocks
      refine ⟨rfl, ?_, fun txid idx => ?_, fun script txid idx => ?_⟩
      · rw [hcursor.1]
        rfl
      · exact hempty (.outHint txid idx) rfl
      · exact hempty (.output script txid idx) rfl
  | cons b chain ih =>
      obtain ⟨t₀, hbelow, hstep⟩ := Option.bind_eq_some_iff.mp hrun
      exact (ih hchain.2 hbelow).indexAndFlush hchain.1 hstep

end Run

end UtxoTracker

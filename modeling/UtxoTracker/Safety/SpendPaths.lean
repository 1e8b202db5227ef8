import UtxoTracker.Lib.Patch
import UtxoTracker.Store.Outputs
/-!
# The batched spend path is the single one

Spending a block's inputs in one batch, with the open batch and the cache asked before the disk,
stages what spending them one by one stages, in any order. Each spend is a patch of the batch and of
the undo map at keys of its own outpoint.
-/

namespace UtxoTracker

open KeyedStore Patch

namespace LevelUpStore

variable {σ : LevelUpStore}

/-! ### What a store must hold -/

/-- `H` names the script of an outpoint exactly when its `O` record is there. -/
def HintsNameOutputs (db : Db) : Prop :=
  ∀ txid vout script, db[Key.outHint txid vout]? = some (.hash script) ↔
    (db[Key.output script txid vout]?).isSome

/-- A cached record is the record on disk. -/
def CacheCoherent (σ : LevelUpStore) : Prop :=
  ∀ (outPoint : OutPoint) record script value, σ.outputCache[outPoint]? = some record →
    σ.db[Key.outHint outPoint.txid outPoint.index]? = some (.hash script) →
    σ.db[Key.output script outPoint.txid outPoint.index]? = some value → value = .output record

/-- No outpoint that the open batch creates is on disk. -/
def CreatesNew (σ : LevelUpStore) : Prop :=
  ∀ txid vout, (σ.getTransactionValue (.outHint txid vout)).isSome →
    σ.db[Key.outHint txid vout]? = none

/-! ### A spend as a patch -/

/-- The open batch, and what its spends have removed from it. -/
abbrev SpendMaps := TransactionArray × DeletedTransactionArray

def maps (σ : LevelUpStore) : SpendMaps :=
  (σ.transactionArray.getD ∅, σ.deletedTransactionArray.getD ∅)

structure SpendPatch where
  changes : List (Key × Option (WriteOp Value))
  undo : List (Key × Option Value)

def opValue : WriteOp Value → Option Value
  | .put value => some value
  | .del => none

/-- The height of a block whose `B` record is staged. -/
def stagedHeight (staged : TransactionArray) (blockHash : Hash) : Option Int :=
  ((staged[Key.block blockHash]?.bind opValue).bind decodeBlock).map BlockRecord.h

/-- The recovery records of a spend in the batch. -/
def recoveryChanges (input : SpentInput) (script : Hash) (oVal : Option Value)
    (spendHeight : Option Int) : List (Key × Option (WriteOp Value)) :=
  match oVal with
  | none => []
  | some oVal =>
      match (decodeOutput oVal).map OutputRecord.h, spendHeight with
      | some createdHeight, some spendHeight =>
          if createdHeight < 0 then []
          else if spendHeight ≤ createdHeight then []
          else [(input.mKey, some (.put (.hash script))), (input.kKey script, some (.put oVal))]
      | _, _ => []

/-- What one spend changes, or none when a staged record is missing. -/
def spendPatch (staged : TransactionArray) (input : SpentInput) : Resolved → Option SpendPatch
  | .missing => some ⟨[], []⟩
  | .onDisk _ none => some ⟨[], []⟩
  | .onDisk script (some oVal) => some
      { changes := [(input.mKey, some (.put (.hash script))), (input.kKey script, some (.put oVal)),
          (input.oKey script, some .del), (input.hKey, some .del)]
        undo := [] }
  | .inMem script =>
      match staged[input.oKey script]?, staged[input.hKey]? with
      | some oOp, some hOp => some
          { changes := (input.oKey script, none) :: (input.hKey, none) ::
              recoveryChanges input script (opValue oOp) (stagedHeight staged input.blockHash)
            undo := [(input.oKey script, opValue oOp), (input.hKey, opValue hOp)] }
      | _, _ => none

def spendMaps (spend : SpentInput × Resolved) (m : SpendMaps) : Option SpendMaps :=
  (spendPatch m.1 spend.1 spend.2).map fun patch =>
    (amend patch.changes m.1, record spend.1.blockHash patch.undo m.2)

/-! ### The patch of a spend -/

/-- The outpoint that a record of the spend path is about. -/
def spentOutPoint : Key → Option OutPoint
  | .output _ txid vout => some ⟨txid, vout⟩
  | .outHint txid vout => some ⟨txid, vout⟩
  | .outDel _ _ txid vout => some ⟨txid, vout⟩
  | .hintDel _ txid vout => some ⟨txid, vout⟩
  | _ => none

theorem recoveryChanges_outPoint {input : SpentInput} {script : Hash} {oVal : Option Value}
    {spendHeight : Option Int} {change : Key × Option (WriteOp Value)}
    (hmem : change ∈ recoveryChanges input script oVal spendHeight) :
    spentOutPoint change.1 = some input.outPoint := by
  unfold recoveryChanges at hmem
  split at hmem
  · cases hmem
  · split at hmem
    · split_ifs at hmem
      · cases hmem
      · cases hmem
      · simp only [List.mem_cons, List.not_mem_nil, or_false] at hmem
        rcases hmem with rfl | rfl <;> rfl
    · cases hmem

/-- A spend touches keys of its own outpoint alone. -/
theorem spendPatch_outPoint {staged : TransactionArray} {input : SpentInput} {found : Resolved}
    {patch : SpendPatch} (hpatch : spendPatch staged input found = some patch) :
    (∀ change ∈ patch.changes, spentOutPoint change.1 = some input.outPoint) ∧
      ∀ entry ∈ patch.undo, spentOutPoint entry.1 = some input.outPoint := by
  cases found with
  | missing =>
      obtain rfl := Option.some.inj hpatch
      simp
  | inMem script =>
      simp only [spendPatch] at hpatch
      split at hpatch
      · obtain rfl := Option.some.inj hpatch
        refine ⟨fun change hmem => ?_, fun entry hmem => ?_⟩
        · rcases List.mem_cons.mp hmem with rfl | hin
          · rfl
          · rcases List.mem_cons.mp hin with rfl | hin
            · rfl
            · exact recoveryChanges_outPoint hin
        · simp only [List.mem_cons, List.not_mem_nil, or_false] at hmem
          rcases hmem with rfl | rfl <;> rfl
      · cases hpatch
  | onDisk script oVal =>
      cases oVal with
      | none =>
          obtain rfl := Option.some.inj hpatch
          simp
      | some oVal =>
          obtain rfl := Option.some.inj hpatch
          refine ⟨fun change hmem => ?_, fun entry hmem => by cases hmem⟩
          simp only [List.mem_cons, List.not_mem_nil, or_false] at hmem
          rcases hmem with rfl | rfl | rfl | rfl <;> rfl

/-- A spend reads keys of its own outpoint, and a block record. -/
theorem spendPatch_congr {staged staged' : TransactionArray} {input : SpentInput}
    (found : Resolved) (hown : ∀ key, spentOutPoint key = some input.outPoint →
      staged[key]? = staged'[key]?)
    (hblock : ∀ blockHash, staged[Key.block blockHash]? = staged'[Key.block blockHash]?) :
    spendPatch staged input found = spendPatch staged' input found := by
  cases found with
  | missing => rfl
  | onDisk script oVal => cases oVal <;> rfl
  | inMem script =>
      have hO := hown (input.oKey script) rfl
      have hH := hown input.hKey rfl
      simp only [spendPatch, stagedHeight, hO, hH, hblock]

theorem disjoint_of_outPoint {β : Type} {entries entries' : List (Key × β)} {a b : OutPoint}
    (hne : a ≠ b) (ha : ∀ entry ∈ entries, spentOutPoint entry.1 = some a)
    (hb : ∀ entry ∈ entries', spentOutPoint entry.1 = some b) : Disjoint entries entries' := by
  intro entry hin entry' hin' heq
  have hsame := (ha entry hin).symm.trans ((congrArg spentOutPoint heq).trans (hb entry' hin'))
  exact hne (Option.some.inj hsame)

/-- A patch of one outpoint leaves the others' spends as they are. -/
theorem spendPatch_amend {changes : List (Key × Option (WriteOp Value))} {input : SpentInput}
    {a : OutPoint} (hne : a ≠ input.outPoint)
    (hchanges : ∀ change ∈ changes, spentOutPoint change.1 = some a) (staged : TransactionArray)
    (found : Resolved) :
    spendPatch (amend changes staged) input found = spendPatch staged input found := by
  refine spendPatch_congr found (fun key hkey => ?_) fun blockHash => ?_
  · refine getElem?_amend_of_notMem (fun change hmem heq => ?_) staged
    rw [← heq, hchanges change hmem] at hkey
    exact hne (Option.some.inj hkey)
  · refine getElem?_amend_of_notMem (fun change hmem heq => ?_) staged
    have hkey := hchanges change hmem
    rw [heq] at hkey
    cases hkey

/-- **Spends of two outpoints commute.** -/
theorem spendMaps_comm {first second : SpentInput × Resolved}
    (hne : first.1.outPoint ≠ second.1.outPoint) (m : SpendMaps) :
    (spendMaps first m).bind (spendMaps second) = (spendMaps second m).bind (spendMaps first) := by
  unfold spendMaps
  cases hfirst : spendPatch m.1 first.1 first.2 with
  | none =>
      cases hsecond : spendPatch m.1 second.1 second.2 with
      | none => rfl
      | some patch =>
          have hstay := spendPatch_amend hne.symm (spendPatch_outPoint hsecond).1 m.1 first.2
          simp [hstay, hfirst]
  | some patch =>
      have hstay := spendPatch_amend hne (spendPatch_outPoint hfirst).1 m.1 second.2
      cases hsecond : spendPatch m.1 second.1 second.2 with
      | none => simp [hstay, hsecond]
      | some patch' =>
          have hstay' := spendPatch_amend hne.symm (spendPatch_outPoint hsecond).1 m.1 first.2
          obtain ⟨hchanges, hundo⟩ := spendPatch_outPoint hfirst
          obtain ⟨hchanges', hundo'⟩ := spendPatch_outPoint hsecond
          simp only [Option.map_some, Option.bind_some, hstay, hsecond, hstay', hfirst]
          rw [amend_comm (disjoint_of_outPoint hne hchanges hchanges'),
            record_comm (disjoint_of_outPoint hne hundo hundo')]

/-! ### The store's spends -/

/-- What staging a spend does, or that it throws where its patch is missing. -/
def Spends (σ : LevelUpStore) (result : Except String LevelUpStore)
    (patched : Option SpendMaps) : Prop :=
  match result with
  | .ok σ' => patched = some σ'.maps ∧ σ'.Open ∧ σ'.db = σ.db
  | .error _ => patched = none

theorem maps_addTransaction (hopen : σ.Open) (key : Key) (op : WriteOp Value) :
    (σ.addTransaction key op).maps = (amend [(key, some op)] σ.maps.1, σ.maps.2) := by
  obtain ⟨staged, hstaged⟩ := Option.isSome_iff_exists.mp hopen.1
  simp only [maps, addTransaction, hstaged, Option.getD_some]
  rfl

theorem getTransactionValue_maps (key : Key) :
    σ.getTransactionValue key = (σ.maps.1[key]?).bind opValue := by
  have hstaged : σ.maps.1[key]? = σ.staged key := rfl
  rw [getTransactionValue_eq, hstaged]
  cases σ.staged key with
  | none => rfl
  | some op => cases op <;> rfl

theorem removeTransaction_maps (hopen : σ.Open) (key : Key) (blockHash : Hash) :
    match σ.maps.1[key]? with
    | none => σ.removeTransaction key blockHash = none
    | some op => ∃ σ', σ.removeTransaction key blockHash = some σ' ∧ σ'.Open ∧ σ'.db = σ.db ∧
        σ'.maps = (amend [(key, none)] σ.maps.1, record blockHash [(key, opValue op)] σ.maps.2) := by
  obtain ⟨staged, hstaged⟩ := Option.isSome_iff_exists.mp hopen.1
  obtain ⟨deleted, hdeleted⟩ := Option.isSome_iff_exists.mp hopen.2
  simp only [maps, hstaged, Option.getD_some]
  cases hop : staged[key]? with
  | none => simp only [removeTransaction, hstaged, hdeleted, hop]
  | some op =>
      have hrun : σ.removeTransaction key blockHash = some { σ with
          transactionArray := some (staged.erase key)
          deletedTransactionArray :=
            some (deleted.insert blockHash ((deleted[blockHash]?.getD ∅).insert key (opValue op))) } := by
        simp only [removeTransaction, hstaged, hdeleted, hop]
        cases op <;> rfl
      refine ⟨_, hrun, ⟨rfl, rfl⟩, rfl, ?_⟩
      simp only [hdeleted, Option.getD_some]
      rfl

/-- Dropping the staged records of an output. -/
theorem unstage_maps (hopen : σ.Open) (input : SpentInput) (script : Hash) :
    match σ.maps.1[input.oKey script]?, σ.maps.1[input.hKey]? with
    | some oOp, some hOp => ∃ σ', σ.unstageInMemorySpend input script = .ok (σ', opValue oOp) ∧
        σ'.Open ∧ σ'.db = σ.db ∧
        σ'.maps = (amend [(input.oKey script, none), (input.hKey, none)] σ.maps.1,
          record input.blockHash [(input.oKey script, opValue oOp), (input.hKey, opValue hOp)]
            σ.maps.2)
    | _, _ => ∃ message, σ.unstageInMemorySpend input script = .error message := by
  have hremoveO := removeTransaction_maps hopen (input.oKey script) input.blockHash
  have hvalue := getTransactionValue_maps (σ := σ) (input.oKey script)
  cases hO : σ.maps.1[input.oKey script]? with
  | none =>
      rw [hO] at hremoveO
      dsimp only at hremoveO ⊢
      exact ⟨("Missing output match for input " ++ input.json), by simp only [unstageInMemorySpend, hremoveO]⟩
  | some oOp =>
      rw [hO] at hremoveO hvalue
      obtain ⟨σ₁, hrun, hopen₁, hdb₁, hmaps₁⟩ := hremoveO
      have hremoveH := removeTransaction_maps hopen₁ input.hKey input.blockHash
      have hkeep : σ₁.maps.1[input.hKey]? = σ.maps.1[input.hKey]? := by
        rw [hmaps₁]
        dsimp only
        rw [getElem?_amend_one, if_neg]
        exact Key.noConfusion
      rw [hkeep] at hremoveH
      cases hH : σ.maps.1[input.hKey]? with
      | none =>
          rw [hH] at hremoveH
          dsimp only at hremoveH ⊢
          exact ⟨("Missing outputHintKey match for input " ++ input.json),
            by simp only [unstageInMemorySpend, hrun, hremoveH]⟩
      | some hOp =>
          rw [hH] at hremoveH
          obtain ⟨σ₂, hrun₂, hopen₂, hdb₂, hmaps₂⟩ := hremoveH
          refine ⟨σ₂, ?_, hopen₂, hdb₂.trans hdb₁, ?_⟩
          · simp only [unstageInMemorySpend, hrun, hrun₂, hvalue, Option.bind_some]
          · rw [hmaps₂, hmaps₁]
            rfl

theorem spendBlockHeightInBatch_maps (blockHash : Hash) :
    σ.spendBlockHeightInBatch blockHash = stagedHeight σ.maps.1 blockHash := by
  rw [spendBlockHeightInBatch, getTransactionValue_maps, stagedHeight]

theorem recovery_maps (hopen : σ.Open) (input : SpentInput) (script : Hash) (oVal : Option Value) :
    (σ.writeCrossBlockSpendRecovery input script oVal).Open ∧
      (σ.writeCrossBlockSpendRecovery input script oVal).db = σ.db ∧
      (σ.writeCrossBlockSpendRecovery input script oVal).maps =
        (amend (recoveryChanges input script oVal (stagedHeight σ.maps.1 input.blockHash))
          σ.maps.1, σ.maps.2) := by
  cases oVal with
  | none => exact ⟨hopen, rfl, rfl⟩
  | some oVal =>
      simp only [writeCrossBlockSpendRecovery, recoveryChanges, spendBlockHeightInBatch_maps]
      cases hcreated : (decodeOutput oVal).map OutputRecord.h with
      | none => exact ⟨hopen, rfl, rfl⟩
      | some createdHeight =>
          cases hspend : stagedHeight σ.maps.1 input.blockHash with
          | none => exact ⟨hopen, rfl, rfl⟩
          | some spendHeight =>
              dsimp only
              by_cases hmempool : createdHeight < 0
              · rw [if_pos hmempool, if_pos hmempool]
                exact ⟨hopen, rfl, rfl⟩
              · rw [if_neg hmempool, if_neg hmempool]
                by_cases hsame : spendHeight ≤ createdHeight
                · rw [if_pos hsame, if_pos hsame]
                  exact ⟨hopen, rfl, rfl⟩
                · rw [if_neg hsame, if_neg hsame]
                  have hopen₁ := hopen.addTransaction input.mKey (.put (.hash script))
                  refine ⟨hopen₁.addTransaction _ _, ?_, ?_⟩
                  · rw [hopen₁.addTransaction_db, hopen.addTransaction_db]
                  · rw [maps_addTransaction hopen₁, maps_addTransaction hopen]
                    rfl

/-- **Staging a spend is applying its patch.** -/
theorem stageSpend_maps (hopen : σ.Open) (input : SpentInput) (found : Resolved) :
    Spends σ (σ.stageSpend input found) (spendMaps (input, found) σ.maps) := by
  cases found with
  | missing => exact ⟨rfl, hopen, rfl⟩
  | onDisk script oVal =>
      cases oVal with
      | none => exact ⟨rfl, hopen, rfl⟩
      | some oVal =>
          have hopen₁ := hopen.addTransaction input.mKey (.put (.hash script))
          have hopen₂ := hopen₁.addTransaction (input.kKey script) (.put oVal)
          have hopen₃ := hopen₂.addTransaction (input.oKey script) .del
          refine ⟨?_, hopen₃.addTransaction _ _, ?_⟩
          · rw [maps_addTransaction hopen₃, maps_addTransaction hopen₂, maps_addTransaction hopen₁,
              maps_addTransaction hopen]
            rfl
          · rw [hopen₃.addTransaction_db, hopen₂.addTransaction_db, hopen₁.addTransaction_db,
              hopen.addTransaction_db]
  | inMem script =>
      have hunstage := unstage_maps hopen input script
      simp only [stageSpend, spendMaps, spendPatch]
      split at hunstage
      · rename_i oOp hOp _ _
        obtain ⟨σ₁, hrun, hopen₁, hdb₁, hmaps₁⟩ := hunstage
        obtain ⟨hopen₂, hdb₂, hmaps₂⟩ := recovery_maps hopen₁ input script (opValue oOp)
        have hheight : stagedHeight σ₁.maps.1 input.blockHash =
            stagedHeight σ.maps.1 input.blockHash := by
          rw [stagedHeight, hmaps₁, stagedHeight]
          dsimp only
          rw [getElem?_amend_of_notMem]
          intro change hmem heq
          simp only [List.mem_cons, List.not_mem_nil, or_false] at hmem
          rcases hmem with rfl | rfl <;> cases heq
        simp only [hrun, bind, Except.bind]
        refine ⟨?_, hopen₂, hdb₂.trans hdb₁⟩
        rw [hmaps₂, hheight, hmaps₁]
        rfl
      · obtain ⟨message, hrun⟩ := hunstage
        simp only [hrun, bind, Except.bind]
        rfl

/-! ### Looking up one input -/

/-- What `removeOutputWithInput` finds: the disk is asked first. -/
def diskFirst (σ : LevelUpStore) (input : SpentInput) : Resolved :=
  let script := (σ.db[input.hKey]?).bind decodeHash
  let oVal := script.bind fun script => σ.db[input.oKey script]?
  match script, oVal with
  | some script, some oVal => .onDisk script (some oVal)
  | _, _ =>
      match (σ.getTransactionValue input.hKey).bind decodeHash with
      | some inMemScript => .inMem inMemScript
      | none => .missing

theorem removeOutputWithInput_eq (input : SpentInput) :
    σ.removeOutputWithInput input = σ.stageSpend input (σ.diskFirst input) := by
  unfold removeOutputWithInput diskFirst
  cases hscript : (σ.db[input.hKey]?).bind decodeHash with
  | none =>
      cases hstaged : (σ.getTransactionValue input.hKey).bind decodeHash <;> rfl
  | some script =>
      dsimp only [Option.bind_some]
      cases hoVal : σ.db[input.oKey script]? with
      | some oVal => rfl
      | none => cases hstaged : (σ.getTransactionValue input.hKey).bind decodeHash <;> rfl

/-- The disk, and what is staged at the outpoint's `H`, decide the lookup. -/
theorem diskFirst_congr {τ : LevelUpStore} {input : SpentInput} (hdb : τ.db = σ.db)
    (hstaged : τ.getTransactionValue input.hKey = σ.getTransactionValue input.hKey) :
    τ.diskFirst input = σ.diskFirst input := by
  simp only [diskFirst, hdb, hstaged]

/-- **The batched lookup finds what the single one finds**, and takes at most the outpoint's record
out of the cache. -/
theorem outputLookup_hintLookup {τ : LevelUpStore} (hnames : HintsNameOutputs σ.db)
    (hcache : CacheCoherent τ) (hnew : CreatesNew σ) (hdb : τ.db = σ.db) (input : SpentInput) :
    (τ.outputLookup input (σ.hintLookup input)).2 = σ.diskFirst input := by
  cases hstaged : σ.getTransactionValue input.hKey with
  | some value =>
      have habsent := hnew input.prevTxHash input.prevOutputIndex (by
        rw [← SpentInput.hKey, hstaged]; rfl)
      rw [← SpentInput.hKey] at habsent
      simp only [hintLookup, diskFirst, hstaged, habsent, Option.bind_some, Option.bind_none]
      cases decodeHash value <;> rfl
  | none =>
      cases hscript : (σ.db[input.hKey]?).bind decodeHash with
      | none =>
          simp only [hintLookup, diskFirst, hstaged, hscript, Option.bind_none]
          rfl
      | some script =>
          have hhint : σ.db[input.hKey]? = some (.hash script) := by
            obtain ⟨value, hvalue, hdecoded⟩ := Option.bind_eq_some_iff.mp hscript
            cases value <;> simp_all [decodeHash]
          obtain ⟨oVal, hoVal⟩ := Option.isSome_iff_exists.mp ((hnames _ _ script).mp hhint)
          rw [← SpentInput.oKey] at hoVal
          simp only [hintLookup, diskFirst, hstaged, hscript, hoVal, Option.bind_none,
            Option.bind_some, outputLookup]
          cases hcached : τ.outputCache[input.outPoint]? with
          | none => simp only [hdb, hoVal]
          | some record =>
              have hsame := hcache input.outPoint record script oVal hcached
                (by rw [hdb]; exact hhint) (by rw [hdb]; exact hoVal)
              simp only [hsame]

/-! ### A run of spends -/

/-- The patches of a list of spends, one on the other. -/
def spendAll (spends : List (SpentInput × Resolved)) (m : SpendMaps) : Option SpendMaps :=
  spends.foldl (fun m spend => m.bind (spendMaps spend)) (some m)

theorem foldl_bind_none (spends : List (SpentInput × Resolved)) :
    spends.foldl (fun m spend => m.bind (spendMaps spend)) none = none := by
  induction spends with
  | nil => rfl
  | cons spend rest ih => exact ih

theorem spendAll_cons (spend : SpentInput × Resolved) (rest : List (SpentInput × Resolved))
    (m : SpendMaps) : spendAll (spend :: rest) m = (spendMaps spend m).bind (spendAll rest) := by
  cases hpatch : spendMaps spend m with
  | none => simp only [spendAll, List.foldl_cons, Option.bind_some, hpatch, foldl_bind_none,
      Option.bind_none]
  | some m' => simp only [spendAll, List.foldl_cons, Option.bind_some, hpatch]

/-- Spends of different outpoints can be staged in any order. -/
theorem spendAll_perm {spends spends' : List (SpentInput × Resolved)}
    (hperm : spends.Perm spends')
    (hdistinct : (spends.map fun spend => spend.1.outPoint).Nodup) (m : SpendMaps) :
    spendAll spends m = spendAll spends' m := by
  refine hperm.foldl_eq' (fun first hfirst second hsecond m => ?_) (some m)
  cases m with
  | none => rfl
  | some m =>
      dsimp only [Option.bind_some]
      by_cases hsame : first = second
      · rw [hsame]
      · refine spendMaps_comm (fun heq => hsame ?_) m
        exact List.inj_on_of_nodup_map hdistinct hfirst hsecond heq

theorem stageSpends_maps (hopen : σ.Open) (spends : List (SpentInput × Resolved)) :
    Spends σ (stageSpends spends σ) (spendAll spends σ.maps) := by
  induction spends generalizing σ with
  | nil => exact ⟨rfl, hopen, rfl⟩
  | cons spend rest ih =>
      obtain ⟨input, found⟩ := spend
      have hone := stageSpend_maps hopen input found
      rw [spendAll_cons]
      cases hrun : σ.stageSpend input found with
      | error message =>
          rw [hrun] at hone
          simp only [stageSpends, hrun, bind, Except.bind]
          exact congrArg (Option.bind · (spendAll rest)) hone
      | ok σ' =>
          rw [hrun] at hone
          obtain ⟨hpatch, hopen', hdb⟩ := hone
          have hrest := ih hopen'
          simp only [stageSpends, hrun, bind, Except.bind, hpatch, Option.bind_some]
          cases hend : stageSpends rest σ' with
          | error message => rwa [hend] at hrest
          | ok σ'' =>
              rw [hend] at hrest
              exact ⟨hrest.1, hrest.2.1, hrest.2.2.trans hdb⟩

/-- A spend of another outpoint leaves what is staged at this one's `H`. -/
theorem getTransactionValue_spendMaps {spend : SpentInput × Resolved} {m' : SpendMaps}
    (hspend : spendMaps spend σ.maps = some m') {σ' : LevelUpStore} (hmaps : σ'.maps = m')
    {input : SpentInput} (hne : spend.1.outPoint ≠ input.outPoint) :
    σ'.getTransactionValue input.hKey = σ.getTransactionValue input.hKey := by
  obtain ⟨patch, hpatch, rfl⟩ := Option.map_eq_some_iff.mp hspend
  rw [getTransactionValue_maps, getTransactionValue_maps, hmaps, getElem?_amend_of_notMem]
  intro change hmem heq
  have hkey := (spendPatch_outPoint hpatch).1 change hmem
  rw [heq] at hkey
  exact hne (Option.some.inj hkey).symm

/-- One call after another stages each input as the first state would find it. -/
theorem removeOutputsOneByOne_maps {base : LevelUpStore} (hopen : σ.Open) (hdb : σ.db = base.db)
    {inputs : List SpentInput} (hdistinct : (inputs.map SpentInput.outPoint).Nodup)
    (hstaged : ∀ input ∈ inputs,
      σ.getTransactionValue input.hKey = base.getTransactionValue input.hKey) :
    Spends σ (removeOutputsOneByOne inputs σ)
      (spendAll (inputs.map fun input => (input, base.diskFirst input)) σ.maps) := by
  induction inputs generalizing σ with
  | nil => exact ⟨rfl, hopen, rfl⟩
  | cons input rest ih =>
      obtain ⟨hfresh, hrest⟩ := List.nodup_cons.mp hdistinct
      have hfind := diskFirst_congr hdb (hstaged input List.mem_cons_self)
      have hone := stageSpend_maps hopen input (base.diskFirst input)
      rw [List.map_cons, spendAll_cons]
      cases hrun : σ.stageSpend input (base.diskFirst input) with
      | error message =>
          rw [hrun] at hone
          simp only [removeOutputsOneByOne, removeOutputWithInput_eq, hfind, hrun, bind,
            Except.bind]
          exact congrArg (Option.bind · _) hone
      | ok σ' =>
          rw [hrun] at hone
          obtain ⟨hpatch, hopen', hdb'⟩ := hone
          have hend := ih hopen' (hdb'.trans hdb) hrest fun other hmem => by
            refine (getTransactionValue_spendMaps hpatch rfl fun heq => ?_).trans
              (hstaged other (List.mem_cons_of_mem _ hmem))
            exact hfresh (heq ▸ List.mem_map_of_mem hmem)
          simp only [removeOutputsOneByOne, removeOutputWithInput_eq, hfind, hrun, bind,
            Except.bind, hpatch, Option.bind_some]
          cases hdone : removeOutputsOneByOne rest σ' with
          | error message => rwa [hdone] at hend
          | ok σ'' =>
              rw [hdone] at hend
              exact ⟨hend.1, hend.2.1, hend.2.2.trans hdb'⟩

/-! ### The batched call -/

/-- A cached record taken out leaves a coherent cache. -/
theorem CacheCoherent.outputLookup {τ : LevelUpStore} (hcache : CacheCoherent τ)
    (input : SpentInput) (found : Resolved) :
    CacheCoherent (τ.outputLookup input found).1 ∧ (τ.outputLookup input found).1.db = τ.db ∧
      (τ.outputLookup input found).1.maps = τ.maps ∧
      (τ.Open → (τ.outputLookup input found).1.Open) := by
  cases found with
  | missing => exact ⟨hcache, rfl, rfl, id⟩
  | inMem script => exact ⟨hcache, rfl, rfl, id⟩
  | onDisk script oVal =>
      unfold LevelUpStore.outputLookup
      cases hcached : τ.outputCache[input.outPoint]? with
      | none => exact ⟨hcache, rfl, rfl, id⟩
      | some record =>
          refine ⟨fun outPoint record' script' value hin => ?_, rfl, rfl, id⟩
          refine hcache outPoint record' script' value ?_
          rw [Std.ExtTreeMap.getElem?_erase] at hin
          split_ifs at hin
          exact hin

/-- Both lookup phases find every input as the single call would, and stage nothing. -/
theorem outputLookups_hintLookup (hnames : HintsNameOutputs σ.db) (hnew : CreatesNew σ)
    {τ : LevelUpStore} (hcache : CacheCoherent τ) (hdb : τ.db = σ.db) (hopen : τ.Open)
    (inputs : List SpentInput) :
    let looked := outputLookups (inputs.map fun input => (input, σ.hintLookup input)) τ
    looked.2 = inputs.map (fun input => (input, σ.diskFirst input)) ∧ looked.1.Open ∧
      looked.1.maps = τ.maps ∧ looked.1.db = τ.db := by
  induction inputs generalizing τ with
  | nil => exact ⟨rfl, hopen, rfl, rfl⟩
  | cons input rest ih =>
      obtain ⟨hcache', hdb', hmaps', hopen'⟩ := hcache.outputLookup input (σ.hintLookup input)
      obtain ⟨hfound, hopenEnd, hmapsEnd, hdbEnd⟩ := ih hcache' (hdb'.trans hdb) (hopen' hopen)
      simp only [List.map_cons, outputLookups,
        outputLookup_hintLookup hnames hcache hnew hdb input]
      exact ⟨by rw [hfound], hopenEnd, hmapsEnd.trans hmaps', hdbEnd.trans hdb'⟩

theorem removeOutputsWithInputsBatch_maps (hopen : σ.Open) (hnames : HintsNameOutputs σ.db)
    (hcache : CacheCoherent σ) (hnew : CreatesNew σ) (inputs : List SpentInput) :
    Spends σ (σ.removeOutputsWithInputsBatch inputs)
      (spendAll (inputs.map fun input => (input, σ.diskFirst input)) σ.maps) := by
  obtain ⟨hfound, hopen', hmaps, hdb⟩ :=
    outputLookups_hintLookup hnames hnew hcache rfl hopen inputs
  have hstage := stageSpends_maps hopen' (inputs.map fun input => (input, σ.diskFirst input))
  rw [hmaps] at hstage
  simp only [removeOutputsWithInputsBatch, hfound]
  revert hstage
  cases stageSpends (inputs.map fun input => (input, σ.diskFirst input)) _ with
  | error message => exact id
  | ok σ' => exact fun hstage => ⟨hstage.1, hstage.2.1, hstage.2.2.trans hdb⟩

/-! ### The two paths -/

/-- The staged writes and the undo map. -/
def staging (σ : LevelUpStore) : Option TransactionArray × Option DeletedTransactionArray :=
  (σ.transactionArray, σ.deletedTransactionArray)

theorem Spends.staging_eq {result : Except String LevelUpStore} {patched : Option SpendMaps}
    (hspends : Spends σ result patched) :
    result.toOption.map staging = patched.map fun m => (some m.1, some m.2) := by
  cases result with
  | error message =>
      have hnone : patched = none := hspends
      subst hnone
      rfl
  | ok σ' =>
      obtain ⟨rfl, hopen, -⟩ := hspends
      obtain ⟨staged, hstaged⟩ := Option.isSome_iff_exists.mp hopen.1
      obtain ⟨deleted, hdeleted⟩ := Option.isSome_iff_exists.mp hopen.2
      simp only [Except.toOption, Option.map_some, staging, maps, hstaged, hdeleted,
        Option.getD_some]

/-- **The batched spend path is the single one.** Over a store whose hints and outputs match, with
caches that agree with the disk and a batch that creates nothing already there, spending distinct
outpoints in one call leaves the staged writes and the undo map that single calls leave, in any
order; when a staged record is missing, both throw. -/
theorem removeOutputsWithInputsBatch_eq_oneByOne (hopen : σ.Open)
    (hnames : HintsNameOutputs σ.db) (hcache : CacheCoherent σ) (hnew : CreatesNew σ)
    {inputs inputs' : List SpentInput} (hdistinct : (inputs.map SpentInput.outPoint).Nodup)
    (horder : inputs'.Perm inputs) :
    (σ.removeOutputsWithInputsBatch inputs).toOption.map staging =
      (removeOutputsOneByOne inputs' σ).toOption.map staging := by
  have hdistinct' := (horder.map SpentInput.outPoint).nodup_iff.mpr hdistinct
  have hbatch := removeOutputsWithInputsBatch_maps hopen hnames hcache hnew inputs
  have hsingle := removeOutputsOneByOne_maps hopen rfl hdistinct' fun _ _ => rfl
  have hperm : spendAll (inputs.map fun input => (input, σ.diskFirst input)) σ.maps =
      spendAll (inputs'.map fun input => (input, σ.diskFirst input)) σ.maps := by
    refine spendAll_perm (horder.symm.map _) ?_ σ.maps
    rw [List.map_map]
    exact hdistinct
  rw [hbatch.staging_eq, hsingle.staging_eq, hperm]

/-- Transaction 1 is on disk and cached; the open batch has created transaction 2 in block 20 and
transaction 3 in block 21. -/
def mixedBatch : LevelUpStore where
  db := ((∅ : Db).insert (.outHint 1 0) (.hash 9)).insert (.output 9 1 0) (.output ⟨50, 9, 1, false⟩)
  transactionArray := some (((((((∅ : TransactionArray).insert
    (.block 20) (.put (.block ⟨10, 0, 19⟩))).insert
    (.block 21) (.put (.block ⟨11, 0, 20⟩))).insert
    (.output 9 2 0) (.put (.output ⟨60, 10, 2, false⟩))).insert
    (.outHint 2 0) (.put (.hash 9))).insert
    (.output 9 3 1) (.put (.output ⟨70, 11, 3, false⟩))).insert
    (.outHint 3 1) (.put (.hash 9)))
  deletedTransactionArray := some ∅
  outputCache := (∅ : Std.ExtTreeMap OutPoint OutputRecord).insert ⟨1, 0⟩ ⟨50, 9, 1, false⟩
  knownScripts := ∅

/-- Block 21 spends an output on disk, one of its own, one of block 20 and one that is nowhere. -/
def mixedInputs : List SpentInput := [⟨1, 0, 21⟩, ⟨3, 1, 21⟩, ⟨2, 0, 21⟩, ⟨4, 0, 21⟩]

theorem mixedBatch_names : HintsNameOutputs mixedBatch.db := by
  intro txid vout script
  by_cases hscript : (9#256 : Hash) = script
  · simp [mixedBatch, Std.ExtTreeMap.getElem?_insert, hscript]
  · simp [mixedBatch, Std.ExtTreeMap.getElem?_insert, hscript]

theorem mixedBatch_cache : CacheCoherent mixedBatch := by
  intro outPoint record script value hcached hhint hvalue
  obtain ⟨rfl, rfl⟩ : (⟨1, 0⟩ : OutPoint) = outPoint ∧ _ = record := by
    simpa [mixedBatch, Std.ExtTreeMap.getElem?_insert] using hcached
  have hscript : mixedBatch.db[Key.outHint 1 0]? = some (.hash 9) := by decide +kernel
  obtain rfl := Value.hash.inj (Option.some.inj (hscript.symm.trans hhint))
  simpa [mixedBatch, Std.ExtTreeMap.getElem?_insert] using hvalue.symm

theorem mixedBatch_new : CreatesNew mixedBatch := by
  intro txid vout hsome
  by_cases hfirst : (1#256 : Hash) = txid
  · subst hfirst
    simp [mixedBatch, getTransactionValue] at hsome
  · simp [mixedBatch, hfirst]

theorem removeOutputsWithInputsBatch_eq_oneByOne_mixed :
    (mixedBatch.removeOutputsWithInputsBatch mixedInputs).toOption.map staging =
        (removeOutputsOneByOne mixedInputs.reverse mixedBatch).toOption.map staging ∧
      (mixedBatch.removeOutputsWithInputsBatch mixedInputs).toOption.isSome :=
  ⟨removeOutputsWithInputsBatch_eq_oneByOne ⟨rfl, rfl⟩ mixedBatch_names mixedBatch_cache
    mixedBatch_new (by decide) (List.reverse_perm _), by decide +kernel⟩

end LevelUpStore

end UtxoTracker

import UtxoTracker.Proof.Chain
/-!
# The first pass of a block

Staging a block's outputs is, script records apart, staging a fixed list of writes. The script
records and the two caches follow invariants of their own.
-/

namespace UtxoTracker

open KeyedStore LevelUpStore

/-- `S` and `Z`, the only records whose writing depends on what the store has seen. -/
def Key.isScript : Key → Bool
  | .scriptBlk _ | .blkScript _ _ => true
  | _ => false

/-- The writes for one output, script records apart. -/
def outputWrites (blockHash : Hash) (out : NewOutput) : List (Key × WriteOp Value) :=
  [(.output out.scriptPubKey out.txHash out.outputIndex, .put (.output out.record)),
    (.outHint out.txHash out.outputIndex, .put (.hash out.scriptPubKey)),
    (.outBlk blockHash out.txHash out.outputIndex, .put (.hash out.scriptPubKey))]

def txWrites (blockHash txid : Hash) : List (Key × WriteOp Value) :=
  [(.tx txid, .put (.txRecord blockHash txid)), (.txExact txid, .put (.hash blockHash)),
    (.txBlockRecovery blockHash txid, .put (.hash txid))]

/-- The writes of the first pass, script records apart. -/
def firstPassWrites (transactions : List Tx) (blockHash : Hash) (height : Int) :
    List (Key × WriteOp Value) :=
  transactions.flatMap fun tx =>
    txWrites blockHash tx.id ++ (newOutputs tx height).flatMap (outputWrites blockHash)

/-! ### Staging a list of writes -/

theorem staged_addTransactions_congr {σ τ : LevelUpStore} (hσ : σ.Open) (hτ : τ.Open) {k : Key}
    (hstaged : σ.staged k = τ.staged k) (ops : List (Key × WriteOp Value)) :
    (σ.addTransactions ops).staged k = (τ.addTransactions ops).staged k := by
  induction ops generalizing σ τ with
  | nil => exact hstaged
  | cons entry rest ih =>
      refine ih (hσ.addTransaction _ _) (hτ.addTransaction _ _) ?_
      rw [hσ.addTransaction_staged, hτ.addTransaction_staged, hstaged]

/-- `σ'` is `σ` with `ops` staged, as far as keys outside the script families go. -/
structure StagedFrom (σ σ' : LevelUpStore) (ops : List (Key × WriteOp Value)) : Prop where
  isOpen : σ'.Open
  db : σ'.db = σ.db
  staged : ∀ k : Key, k.isScript = false → σ'.staged k = (σ.addTransactions ops).staged k

namespace StagedFrom

variable {σ σ' σ'' : LevelUpStore} {ops ops' : List (Key × WriteOp Value)}

theorem refl (hopen : σ.Open) : StagedFrom σ σ [] := ⟨hopen, rfl, fun _ _ => rfl⟩

theorem trans (hopen : σ.Open) (hfirst : StagedFrom σ σ' ops) (hsecond : StagedFrom σ' σ'' ops') :
    StagedFrom σ σ'' (ops ++ ops') where
  isOpen := hsecond.isOpen
  db := hsecond.db.trans hfirst.db
  staged := by
    intro k hk
    rw [hsecond.staged k hk, addTransactions_append]
    exact staged_addTransactions_congr hfirst.isOpen (hopen.addTransactions _)
      (hfirst.staged k hk) _

theorem addTransactions (hopen : σ.Open) (ops : List (Key × WriteOp Value)) :
    StagedFrom σ (σ.addTransactions ops) ops :=
  ⟨hopen.addTransactions _, hopen.addTransactions_db _, fun _ _ => rfl⟩

/-- A change of the caches alone. -/
theorem of_caches (hopen : σ.Open) (hdb : σ'.db = σ.db)
    (hta : σ'.transactionArray = σ.transactionArray)
    (hdta : σ'.deletedTransactionArray = σ.deletedTransactionArray) : StagedFrom σ σ' [] where
  isOpen := by simpa [Open, hta, hdta] using hopen
  db := hdb
  staged := by
    intro k _
    simp [LevelUpStore.staged, LevelUpStore.addTransactions, hta]

end StagedFrom

/-! ### First-seen scripts -/

/-- The script records in the middle of a block: `seen` holds the block's scripts so far, and `base`
the staged writes the block found. -/
structure ScriptInv (base : Key → Option (WriteOp Value)) (σ : LevelUpStore) (chain : Chain)
    (blockHash : Hash) (height : Int) (seen : List Hash) : Prop where
  firstSeen : ∀ s, σ.effective (.scriptBlk s) =
    ((firstSeen chain s).or (if s ∈ seen then some height else none)).map .scriptBlk
  no_del : ∀ s, σ.staged (.scriptBlk s) ≠ some .del
  known : ∀ s ∈ σ.knownScripts, (σ.effective (.scriptBlk s)).isSome
  own : ∀ s, σ.staged (.blkScript blockHash s) =
    if s ∈ seen ∧ UtxoTracker.firstSeen chain s = none then some (.put .empty) else none
  other : ∀ hash s, hash ≠ blockHash → σ.staged (.blkScript hash s) = base (.blkScript hash s)

namespace ScriptInv

variable {base : Key → Option (WriteOp Value)} {σ σ' : LevelUpStore} {chain : Chain}
  {blockHash : Hash} {height : Int} {seen : List Hash}

/-- The invariant reads the script records and the known scripts alone. -/
theorem congr (hinv : ScriptInv base σ chain blockHash height seen) (hdb : σ'.db = σ.db)
    (hstaged : ∀ k : Key, k.isScript = true → σ'.staged k = σ.staged k)
    (hknown : σ'.knownScripts ⊆ σ.knownScripts) : ScriptInv base σ' chain blockHash height seen := by
  have heff : ∀ s, σ'.effective (.scriptBlk s) = σ.effective (.scriptBlk s) := fun s => by
    rw [effective, effective, hstaged _ rfl, hdb]
  refine ⟨fun s => ?_, fun s => ?_, fun s hs => ?_, fun s => ?_, fun hash s hne => ?_⟩
  · rw [heff]; exact hinv.firstSeen s
  · rw [hstaged _ rfl]; exact hinv.no_del s
  · rw [heff]; exact hinv.known s (hknown hs)
  · rw [hstaged _ rfl]; exact hinv.own s
  · rw [hstaged _ rfl]; exact hinv.other hash s hne

/-- A script already recorded adds nothing. -/
theorem of_seen (hinv : ScriptInv base σ chain blockHash height seen) {script : Hash}
    (hsome : (σ.effective (.scriptBlk script)).isSome) :
    ScriptInv base σ chain blockHash height (seen ++ [script]) := by
  rw [hinv.firstSeen, Option.isSome_map] at hsome
  have hmem : ∀ s, UtxoTracker.firstSeen chain s = none → (s ∈ seen ++ [script] ↔ s ∈ seen) := by
    intro s hnone
    rw [List.mem_append, List.mem_singleton]
    refine ⟨fun h => h.elim id fun heq => ?_, Or.inl⟩
    subst heq
    rw [hnone, Option.none_or] at hsome
    by_contra habsent
    simp [habsent] at hsome
  refine ⟨fun s => ?_, hinv.no_del, hinv.known, fun s => ?_, hinv.other⟩
  · rw [hinv.firstSeen]
    cases hfirst : UtxoTracker.firstSeen chain s with
    | some first => rfl
    | none => simp only [hmem s hfirst]
  · rw [hinv.own]
    by_cases hfirst : UtxoTracker.firstSeen chain s = none
    · simp only [hmem s hfirst]
    · simp only [hfirst, and_false]

theorem rememberScript (hinv : ScriptInv base σ chain blockHash height seen) {script : Hash}
    (hsome : (σ.effective (.scriptBlk script)).isSome) :
    ScriptInv base (σ.rememberScript script) chain blockHash height seen where
  firstSeen := hinv.firstSeen
  no_del := hinv.no_del
  known := by
    intro s hs
    rcases Finset.mem_insert.mp hs with rfl | hs
    · exact hsome
    · exact hinv.known s hs
  own := hinv.own
  other := hinv.other

/-- Two new records for a script no one has seen. -/
theorem insert_new (hinv : ScriptInv base σ chain blockHash height seen) (hopen : σ.Open) {script : Hash}
    (hnone : σ.effective (.scriptBlk script) = none) :
    ScriptInv base ((σ.addTransaction (.scriptBlk script) (.put (.scriptBlk height))).addTransaction
      (.blkScript blockHash script) (.put .empty)) chain blockHash height (seen ++ [script]) := by
  have hopen₁ := hopen.addTransaction (.scriptBlk script) (.put (.scriptBlk height))
  have hfresh : UtxoTracker.firstSeen chain script = none ∧ script ∉ seen := by
    rw [hinv.firstSeen, Option.map_eq_none_iff, Option.or_eq_none_iff] at hnone
    exact ⟨hnone.1, fun hmem => by simp [hmem] at hnone⟩
  have hstaged : ∀ s,
      ((σ.addTransaction (.scriptBlk script) (.put (.scriptBlk height))).addTransaction
        (.blkScript blockHash script) (.put .empty)).staged (.scriptBlk s) =
        if script = s then some (.put (.scriptBlk height)) else σ.staged (.scriptBlk s) := by
    intro s
    rw [hopen₁.addTransaction_staged, hopen.addTransaction_staged]
    simp
  have heff : ∀ s,
      ((σ.addTransaction (.scriptBlk script) (.put (.scriptBlk height))).addTransaction
        (.blkScript blockHash script) (.put .empty)).effective (.scriptBlk s) =
        if script = s then some (.scriptBlk height) else σ.effective (.scriptBlk s) := by
    intro s
    rw [effective, hstaged, hopen₁.addTransaction_db, hopen.addTransaction_db, effective]
    by_cases hs : script = s <;> simp [hs]
  refine ⟨fun s => ?_, fun s => ?_, fun s hs => ?_, fun s => ?_, fun hash s hne => ?_⟩
  · rw [heff]
    by_cases hs : script = s
    · subst hs
      simp [hfresh.1]
    · rw [if_neg hs, hinv.firstSeen]
      have hmem : s ∈ seen ++ [script] ↔ s ∈ seen := by simp [Ne.symm hs]
      simp only [hmem]
  · rw [hstaged]
    by_cases hs : script = s
    · simp [hs]
    · rw [if_neg hs]; exact hinv.no_del s
  · rw [heff]
    by_cases heq : script = s
    · simp [heq]
    · rw [if_neg heq]
      refine hinv.known s ?_
      simpa using hs
  · rw [hopen₁.addTransaction_staged, hopen.addTransaction_staged, hinv.own]
    by_cases hs : script = s
    · subst hs
      simp [hfresh.1]
    · have hmem : s ∈ seen ++ [script] ↔ s ∈ seen := by simp [Ne.symm hs]
      simp [hs, hmem]
  · rw [hopen₁.addTransaction_staged, hopen.addTransaction_staged, ← hinv.other hash s hne]
    simp [Ne.symm hne]

end ScriptInv

theorem trimKnownScripts_subset (σ : LevelUpStore) :
    σ.trimKnownScripts.knownScripts ⊆ σ.knownScripts := by
  unfold trimKnownScripts
  split
  · exact Finset.empty_subset _
  · exact subset_rfl

theorem trimKnownScripts_eq (σ : LevelUpStore) :
    ∃ known, σ.trimKnownScripts = { σ with knownScripts := known } := by
  unfold trimKnownScripts
  split
  · exact ⟨∅, rfl⟩
  · exact ⟨σ.knownScripts, rfl⟩

/-- Recording a script keeps the script invariant and stages nothing outside the script families. -/
theorem insertOutputScriptBlock_spec {base : Key → Option (WriteOp Value)} {σ : LevelUpStore}
    {chain : Chain} {blockHash : Hash} {height : Int} {seen : List Hash} (hopen : σ.Open)
    (hinv : ScriptInv base σ chain blockHash height seen) (script : Hash) :
    ScriptInv base (σ.insertOutputScriptBlock script (some blockHash) height) chain blockHash height
        (seen ++ [script]) ∧
      StagedFrom σ (σ.insertOutputScriptBlock script (some blockHash) height) [] ∧
      (σ.insertOutputScriptBlock script (some blockHash) height).outputCache = σ.outputCache := by
  obtain ⟨known, htrim⟩ := trimKnownScripts_eq σ
  have hsubset := trimKnownScripts_subset σ
  simp only [insertOutputScriptBlock]
  rw [htrim] at hsubset ⊢
  generalize hτ : ({ σ with knownScripts := known } : LevelUpStore) = τ at hsubset ⊢
  have hτopen : τ.Open := by subst hτ; exact hopen
  have hτinv : ScriptInv base τ chain blockHash height seen := by
    subst hτ
    exact hinv.congr rfl (fun _ _ => rfl) hsubset
  have hτfrom : StagedFrom σ τ [] := by subst hτ; exact .of_caches hopen rfl rfl rfl
  have hτcache : τ.outputCache = σ.outputCache := by subst hτ; rfl
  have hremember : (τ.effective (.scriptBlk script)).isSome →
      ScriptInv base (τ.rememberScript script) chain blockHash height (seen ++ [script]) ∧
        StagedFrom σ (τ.rememberScript script) [] ∧
        (τ.rememberScript script).outputCache = σ.outputCache := fun hsome =>
    ⟨(hτinv.of_seen hsome).rememberScript hsome,
      hτfrom.trans hopen (.of_caches hτopen rfl rfl rfl), hτcache⟩
  by_cases hknown : script ∈ τ.knownScripts
  · rw [if_pos hknown]
    exact ⟨hτinv.of_seen (hτinv.known script hknown), hτfrom, hτcache⟩
  rw [if_neg hknown]
  by_cases hbatch : (τ.getTransactionValue (.scriptBlk script)).isSome
  · rw [if_pos hbatch]
    refine hremember ?_
    rw [getTransactionValue_eq] at hbatch
    rw [effective]
    split at hbatch
    · rename_i value hstaged
      simp [hstaged]
    · cases hbatch
  rw [if_neg hbatch]
  -- No put is staged and no delete ever is, so the disk decides.
  have hstaged : τ.staged (.scriptBlk script) = none := by
    rw [getTransactionValue_eq] at hbatch
    cases hop : τ.staged (.scriptBlk script) with
    | none => rfl
    | some op =>
        cases op with
        | put value => simp [hop] at hbatch
        | del => exact absurd hop (hτinv.no_del script)
  by_cases hdisk : (τ.db[Key.scriptBlk script]?).isSome
  · rw [if_pos hdisk]
    refine hremember ?_
    rw [effective, hstaged, overlay_none]
    exact hdisk
  rw [if_neg hdisk]
  have hnone : τ.effective (.scriptBlk script) = none := by
    rw [effective, hstaged, overlay_none]
    simpa using hdisk
  have hnew := hτinv.insert_new hτopen hnone
  refine ⟨hnew.rememberScript ?_, ?_, ?_⟩
  · rw [hnew.firstSeen]
    simp
  · have hputs : StagedFrom τ
        ((τ.addTransaction (.scriptBlk script) (.put (.scriptBlk height))).addTransaction
          (.blkScript blockHash script) (.put .empty)) [] := by
      have hopen₁ := hτopen.addTransaction (.scriptBlk script) (.put (.scriptBlk height))
      refine ⟨hopen₁.addTransaction _ _, ?_, fun k hk => ?_⟩
      · rw [hopen₁.addTransaction_db, hτopen.addTransaction_db]
      · rw [hopen₁.addTransaction_staged, hτopen.addTransaction_staged]
        have hZ : Key.blkScript blockHash script ≠ k := by rintro rfl; cases hk
        have hS : Key.scriptBlk script ≠ k := by rintro rfl; cases hk
        rw [if_neg hZ, if_neg hS]
        rfl
    exact (hτfrom.trans hopen hputs).trans hopen (.of_caches hputs.isOpen rfl rfl rfl)
  · simp [LevelUpStore.rememberScript, hτcache]

end UtxoTracker

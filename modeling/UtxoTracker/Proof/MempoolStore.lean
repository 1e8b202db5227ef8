import UtxoTracker.Lib.Fallible
import UtxoTracker.Safety.MempoolDiff
import UtxoTracker.Tracker.MempoolStore
/-!
# What the commits of the mempool store write

A parsed transaction stages puts, a prune and a cleanup stage deletions. The records after a commit
are those of the transactions stored.
-/

namespace UtxoTracker.Mempool

open KeyedStore LevelUpStore MempoolDiff

/-! ### Committing a list of writes -/

theorem db_endTransaction {σ σ' : LevelUpStore} {ops : List (Key × WriteOp Value)}
    (hend : (σ.beginTransaction.addTransactions ops).endTransaction true = .ok σ') (k : Key) :
    σ'.db[k]? = overlay (valuesAt k ops).getLast? σ.db[k]? := by
  have hopen : σ.beginTransaction.Open := open_beginTransaction
  obtain ⟨store, hstore, hdb, -⟩ := (hopen.addTransactions ops).endTransaction
  obtain rfl : store = σ' := Except.ok.inj (hstore.symm.trans hend)
  rw [hdb, effective, staged, hopen.addTransactions_transactionArray, hopen.addTransactions_db,
    Option.getD_some, getElem?_stageAll]
  congr 1
  simp [beginTransaction]

theorem mem_valuesAt {k : Key} {op : WriteOp Value} {ops : List (Key × WriteOp Value)} :
    op ∈ valuesAt k ops ↔ (k, op) ∈ ops := by
  rw [valuesAt, List.mem_filterMap]
  constructor
  · rintro ⟨⟨key, op'⟩, hmem, hvalue⟩
    split_ifs at hvalue with hkey
    obtain rfl : key = k := hkey
    obtain rfl : op' = op := Option.some.inj hvalue
    exact hmem
  · intro hmem
    exact ⟨(k, op), hmem, if_pos rfl⟩

/-- The last write of a key is one of its writes. -/
theorem getLast?_valuesAt (k : Key) (ops : List (Key × WriteOp Value)) :
    ((valuesAt k ops).getLast? = none ∧ ∀ op, (k, op) ∉ ops) ∨
      ∃ op, (valuesAt k ops).getLast? = some op ∧ (k, op) ∈ ops := by
  cases hlast : (valuesAt k ops).getLast? with
  | none =>
      left
      refine ⟨rfl, fun op hmem => ?_⟩
      rw [List.getLast?_eq_none_iff] at hlast
      have hvalue := mem_valuesAt.mpr hmem
      rw [hlast] at hvalue
      cases hvalue
  | some op =>
      right
      exact ⟨op, rfl, mem_valuesAt.mp (List.mem_of_getLast? hlast)⟩

/-- A commit of deletions. -/
theorem db_deletions {σ σ' : LevelUpStore} {ops : List (Key × WriteOp Value)}
    (hend : (σ.beginTransaction.addTransactions ops).endTransaction true = .ok σ')
    (hops : ∀ entry ∈ ops, entry.2 = .del) (k : Key) :
    σ'.db[k]? = if (k, .del) ∈ ops then none else σ.db[k]? := by
  rw [db_endTransaction hend]
  rcases getLast?_valuesAt k ops with ⟨hnone, habsent⟩ | ⟨op, hsome, hmem⟩
  · rw [hnone, overlay_none, if_neg (habsent .del)]
  · obtain rfl : op = .del := hops _ hmem
    rw [hsome, overlay_del, if_pos hmem]

/-! ### The puts of a transaction -/

theorem foldl_addTransactions {α : Type} {f : LevelUpStore → α → LevelUpStore}
    {g : α → List (Key × WriteOp Value)} (hf : ∀ σ a, f σ a = σ.addTransactions (g a))
    (σ : LevelUpStore) (as : List α) :
    as.foldl f σ = σ.addTransactions (as.flatMap g) := by
  induction as generalizing σ with
  | nil => rfl
  | cons a as ih => rw [List.foldl_cons, hf, ih, List.flatMap_cons, addTransactions_append]

/-- The `I` and `J` records of a transaction. -/
def spentOps (tx : Tx) : List (Key × WriteOp Value) :=
  (tx.ins.filter TxIn.spends).flatMap fun input =>
    [(.input input.hash input.index, .put (.hash tx.id)),
      (.inHint tx.id input.hash input.index, .put .empty)]

/-- Its `O` and `H` records. -/
def createdOps (tx : Tx) : List (Key × WriteOp Value) :=
  (newOutputs tx (-1)).flatMap fun output =>
    [(.output output.scriptPubKey output.txHash output.outputIndex, .put (.output output.record)),
      (.outHint output.txHash output.outputIndex, .put (.hash output.scriptPubKey))]

def parseOps (tx : Tx) : List (Key × WriteOp Value) :=
  [(.tx tx.id, .put (.txRecord zeroHash tx.id))] ++ spentOps tx ++ createdOps tx

theorem height_newOutputs {tx : Tx} {height : Int} {output : NewOutput}
    (hmem : output ∈ newOutputs tx height) : output.height = height := by
  rw [newOutputs, List.mem_mapIdx] at hmem
  obtain ⟨i, hi, rfl⟩ := hmem
  rfl

theorem foldl_insertOutput (σ : LevelUpStore) {outputs : List NewOutput}
    (hheight : ∀ output ∈ outputs, output.height = -1) :
    outputs.foldl
        (fun σ output => (((σ.insertOutput output).insertOutputHint output).insertOutputScriptBlock
          output.scriptPubKey none output.height).insertOutputBlock output none) σ =
      σ.addTransactions (outputs.flatMap fun output =>
        [(Key.output output.scriptPubKey output.txHash output.outputIndex,
            WriteOp.put (.output output.record)),
          (.outHint output.txHash output.outputIndex, .put (.hash output.scriptPubKey))]) := by
  induction outputs generalizing σ with
  | nil => rfl
  | cons output outputs ih =>
      have hhead : ¬ 0 ≤ output.height := by
        rw [hheight output List.mem_cons_self]
        decide
      rw [List.foldl_cons, ih _ fun other hmem => hheight other (List.mem_cons_of_mem _ hmem),
        List.flatMap_cons, addTransactions_append]
      congr 1
      simp only [insertOutput, cacheOutput, if_neg hhead]
      rfl

theorem parseTransaction_eq (σ : LevelUpStore) (tx : Tx) :
    parseTransaction σ tx = σ.addTransactions (parseOps tx) := by
  have hinputs : parseTransactionInputs (σ.insertTransaction tx.id none) tx =
      (σ.insertTransaction tx.id none).addTransactions (spentOps tx) := by
    rw [parseTransactionInputs, spentOps]
    apply foldl_addTransactions
    intro σ input
    rfl
  have houtputs := foldl_insertOutput ((σ.insertTransaction tx.id none).addTransactions
    (spentOps tx)) fun output (hmem : output ∈ newOutputs tx (-1)) =>
      height_newOutputs hmem
  rw [parseTransaction, hinputs, parseTransactionOutputs, houtputs, parseOps,
    addTransactions_append, addTransactions_append]
  rfl

/-! ### The deletions of a transaction -/

def inputsOps (db : Db) (txid : Hash) : List (Key × WriteOp Value) :=
  (scan db (inHintEntry txid)).flatMap (deleteInputsByHintOps txid)

def outputsOps (db : Db) (txid : Hash) : List (Key × WriteOp Value) :=
  (scan db (outHintEntry txid)).flatMap (deleteOutputsByHintOps txid)

/-- The keys that go with the transactions of a list. -/
def Evicts (db : Db) (txids : List Hash) (k : Key) : Prop :=
  ∃ t ∈ txids, k = .tx t ∨ k = .txExact t ∨
    (∃ p i, (db[Key.inHint t p i]?).isSome ∧ (k = .input p i ∨ k = .inHint t p i)) ∨
    ∃ s i, db[Key.outHint t i]? = some (.hash s) ∧ (k = .output s t i ∨ k = .outHint t i)

theorem mem_inputsOps {db : Db} {txid : Hash} {entry : Key × WriteOp Value} :
    entry ∈ inputsOps db txid ↔ entry.2 = .del ∧ ∃ p i, (db[Key.inHint txid p i]?).isSome ∧
      (entry.1 = .input p i ∨ entry.1 = .inHint txid p i) := by
  obtain ⟨k, op⟩ := entry
  have hscan : ∀ p i, (p, i) ∈ scan db (inHintEntry txid) ↔
      (db[Key.inHint txid p i]?).isSome := by
    intro p i
    rw [mem_scan, Option.isSome_iff_exists]
    constructor
    · rintro ⟨key, value, hget, hentry⟩
      cases key <;> simp only [inHintEntry, reduceCtorEq] at hentry
      split_ifs at hentry with hsame
      obtain ⟨rfl, rfl⟩ := Prod.mk.inj (Option.some.inj hentry)
      exact ⟨value, hsame ▸ hget⟩
    · rintro ⟨value, hget⟩
      exact ⟨.inHint txid p i, value, hget, if_pos rfl⟩
  rw [inputsOps, List.mem_flatMap]
  constructor
  · rintro ⟨⟨p, i⟩, hmem, hop⟩
    simp only [deleteInputsByHintOps, List.mem_cons, List.not_mem_nil, or_false,
      Prod.mk.injEq] at hop
    rcases hop with ⟨hkey, hop⟩ | ⟨hkey, hop⟩
    · exact ⟨hop, p, i, (hscan p i).mp hmem, Or.inl hkey⟩
    · exact ⟨hop, p, i, (hscan p i).mp hmem, Or.inr hkey⟩
  · rintro ⟨hop, p, i, hget, hkey⟩
    refine ⟨(p, i), (hscan p i).mpr hget, ?_⟩
    simp only [deleteInputsByHintOps, List.mem_cons, List.not_mem_nil, or_false, Prod.mk.injEq]
    rcases hkey with hkey | hkey
    · exact Or.inl ⟨hkey, hop⟩
    · exact Or.inr ⟨hkey, hop⟩

theorem mem_outputsOps {db : Db} {txid : Hash} {entry : Key × WriteOp Value} :
    entry ∈ outputsOps db txid ↔ entry.2 = .del ∧ ∃ s i,
      db[Key.outHint txid i]? = some (.hash s) ∧
        (entry.1 = .output s txid i ∨ entry.1 = .outHint txid i) := by
  obtain ⟨k, op⟩ := entry
  have hscan : ∀ s i, (s, i) ∈ scan db (outHintEntry txid) ↔
      db[Key.outHint txid i]? = some (.hash s) := by
    intro s i
    rw [mem_scan]
    constructor
    · rintro ⟨key, value, hget, hentry⟩
      cases key <;> simp only [outHintEntry, reduceCtorEq] at hentry
      split_ifs at hentry with hsame
      cases value <;> simp only [decodeHash, Option.map_some, Option.map_none, reduceCtorEq,
        Option.some.injEq, Prod.mk.injEq] at hentry
      obtain ⟨rfl, rfl⟩ := hentry
      exact hsame ▸ hget
    · intro hget
      exact ⟨.outHint txid i, _, hget, if_pos rfl⟩
  rw [outputsOps, List.mem_flatMap]
  constructor
  · rintro ⟨⟨s, i⟩, hmem, hop⟩
    simp only [deleteOutputsByHintOps, List.mem_cons, List.not_mem_nil, or_false,
      Prod.mk.injEq] at hop
    rcases hop with ⟨hkey, hop⟩ | ⟨hkey, hop⟩
    · exact ⟨hop, s, i, (hscan s i).mp hmem, Or.inl hkey⟩
    · exact ⟨hop, s, i, (hscan s i).mp hmem, Or.inr hkey⟩
  · rintro ⟨hop, s, i, hget, hkey⟩
    refine ⟨(s, i), (hscan s i).mpr hget, ?_⟩
    simp only [deleteOutputsByHintOps, List.mem_cons, List.not_mem_nil, or_false, Prod.mk.injEq]
    rcases hkey with hkey | hkey
    · exact Or.inl ⟨hkey, hop⟩
    · exact Or.inr ⟨hkey, hop⟩

/-- The records of a database without some transactions. -/
structure Evicted (db db' : Db) (txids : List Hash) : Prop where
  gone : ∀ k, Evicts db txids k → db'[k]? = none
  kept : ∀ k : Key, ¬ Evicts db txids k → db'[k]? = db[k]?

theorem evicted_of_ops {σ σ' : LevelUpStore} {ops : List (Key × WriteOp Value)}
    {txids : List Hash}
    (hend : (σ.beginTransaction.addTransactions ops).endTransaction true = .ok σ')
    (hops : ∀ k op, (k, op) ∈ ops ↔ op = .del ∧ Evicts σ.db txids k) :
    Evicted σ.db σ'.db txids := by
  have hdb := db_deletions hend fun entry hmem => ((hops entry.1 entry.2).mp hmem).1
  constructor
  · intro k hevicts
    rw [hdb, if_pos ((hops k .del).mpr ⟨rfl, hevicts⟩)]
  · intro k hkept
    rw [hdb, if_neg fun hmem => hkept ((hops k .del).mp hmem).2]

theorem mem_deleteTransactionOps {txid : Hash} {entry : Key × WriteOp Value} :
    entry ∈ deleteTransactionOps txid ↔
      entry.2 = .del ∧ (entry.1 = .tx txid ∨ entry.1 = .txExact txid) := by
  obtain ⟨k, op⟩ := entry
  simp only [deleteTransactionOps, List.mem_cons, List.not_mem_nil, or_false, Prod.mk.injEq]
  tauto

/-- The deletions of a transaction's three kinds of record. -/
theorem evicts_iff {db : Db} {txids : List Hash} {k : Key} {op : WriteOp Value} :
    (∃ t ∈ txids, (k, op) ∈ deleteTransactionOps t ∨ (k, op) ∈ inputsOps db t ∨
      (k, op) ∈ outputsOps db t) ↔ op = .del ∧ Evicts db txids k := by
  simp only [mem_deleteTransactionOps, mem_inputsOps, mem_outputsOps, Evicts]
  constructor
  · rintro ⟨t, ht, ⟨hop, hkey⟩ | ⟨hop, hkey⟩ | ⟨hop, hkey⟩⟩
    · exact ⟨hop, t, ht, hkey.imp_right Or.inl⟩
    · exact ⟨hop, t, ht, Or.inr (Or.inr (Or.inl hkey))⟩
    · exact ⟨hop, t, ht, Or.inr (Or.inr (Or.inr hkey))⟩
  · rintro ⟨hop, t, ht, hkey | hkey | hkey | hkey⟩
    · exact ⟨t, ht, Or.inl ⟨hop, Or.inl hkey⟩⟩
    · exact ⟨t, ht, Or.inl ⟨hop, Or.inr hkey⟩⟩
    · exact ⟨t, ht, Or.inr (Or.inl ⟨hop, hkey⟩)⟩
    · exact ⟨t, ht, Or.inr (Or.inr ⟨hop, hkey⟩)⟩

theorem evicted_cleanup {σ σ' : LevelUpStore} {cleanupTxids : List Hash}
    (hend : (stageCleanup σ cleanupTxids).endTransaction true = .ok σ') :
    Evicted σ.db σ'.db cleanupTxids := by
  have hstage : ∀ (txids : List Hash) (store : LevelUpStore), store.Open →
      txids.foldl (fun σ txid => (deleteInputsByHint (deleteOutputsByHint σ txid).2
        txid).2.addTransactions (deleteTransactionOps txid)) store =
      store.addTransactions (txids.flatMap fun t =>
        outputsOps store.db t ++ (inputsOps store.db t ++ deleteTransactionOps t)) := by
    intro txids
    induction txids with
    | nil => exact fun store _ => rfl
    | cons t txids ih =>
        intro store hopen
        have houtputs := hopen.addTransactions (outputsOps store.db t)
        have hinputs := houtputs.addTransactions (inputsOps store.db t)
        have hall := hinputs.addTransactions (deleteTransactionOps t)
        have hdb : (store.addTransactions (outputsOps store.db t)).db = store.db :=
          hopen.addTransactions_db _
        have hone : (deleteInputsByHint (deleteOutputsByHint store t).2 t).2.addTransactions
            (deleteTransactionOps t) =
            ((store.addTransactions (outputsOps store.db t)).addTransactions
              (inputsOps store.db t)).addTransactions (deleteTransactionOps t) := by
          have hscan : (deleteInputsByHint (deleteOutputsByHint store t).2 t).2 =
              (store.addTransactions (outputsOps store.db t)).addTransactions
                (inputsOps (store.addTransactions (outputsOps store.db t)).db t) := rfl
          rw [hscan, hdb]
        rw [List.foldl_cons, hone, ih _ hall, hinputs.addTransactions_db,
          houtputs.addTransactions_db, hdb, List.flatMap_cons, addTransactions_append,
          addTransactions_append, addTransactions_append]
  rw [stageCleanup, hstage cleanupTxids _ open_beginTransaction] at hend
  refine evicted_of_ops hend fun k op => ?_
  have hdb : σ.beginTransaction.db = σ.db := rfl
  rw [hdb, ← evicts_iff]
  simp only [List.mem_flatMap, List.mem_append]
  constructor
  · rintro ⟨t, ht, h | h | h⟩
    · exact ⟨t, ht, Or.inr (Or.inr h)⟩
    · exact ⟨t, ht, Or.inr (Or.inl h)⟩
    · exact ⟨t, ht, Or.inl h⟩
  · rintro ⟨t, ht, h | h | h⟩
    · exact ⟨t, ht, Or.inr (Or.inr h)⟩
    · exact ⟨t, ht, Or.inr (Or.inl h)⟩
    · exact ⟨t, ht, Or.inl h⟩

theorem deleteByHints_eq {deleteByHint : LevelUpStore → Hash → Nat × LevelUpStore}
    {ops : Db → Hash → List (Key × WriteOp Value)}
    (hops : ∀ σ txid, (deleteByHint σ txid).2 = σ.addTransactions (ops σ.db txid))
    {σ : LevelUpStore} (hopen : σ.Open) (txids : List Hash) :
    (deleteByHints deleteByHint σ txids).2 = σ.addTransactions (txids.flatMap (ops σ.db)) := by
  induction txids generalizing σ with
  | nil => rfl
  | cons t txids ih =>
      have hnext : (deleteByHint σ t).2.Open := hops σ t ▸ hopen.addTransactions _
      have hdb : (deleteByHint σ t).2.db = σ.db := by
        rw [hops]
        exact hopen.addTransactions_db _
      rw [deleteByHints, ih hnext, hdb, hops, List.flatMap_cons, addTransactions_append]

section Prune

variable {bs : List TxidText → TxidText → (TxidText → TxidText → Int) → Int}
  {localeCompare : TxidText → TxidText → Int}

/-- What a prune stages, and what it leaves to fetch. -/
theorem exists_deleteAndCompare (hcompare : BinarySearch.Consistent localeCompare LowerHex)
    (hbs : BinarySearch.Contract bs localeCompare LowerHex) (σ : LevelUpStore)
    (listing : List Hash) (mayDelete : Bool) :
    ∃ txids : List Hash,
      (∀ t, t ∈ txids ↔ mayDelete = true ∧ (σ.db[Key.tx t]?).isSome ∧ t ∉ listing) ∧
      (deleteAndCompareTxsNotInList bs localeCompare σ.beginTransaction
        (MempoolDiff.insertSortedTxids bs localeCompare [] (listing.map hashText))
          (!mayDelete)).2.store =
          σ.beginTransaction.addTransactions (txids.flatMap deleteTransactionOps ++
            txids.flatMap (inputsOps σ.db) ++ txids.flatMap (outputsOps σ.db)) ∧
      ∀ text, text ∈ (deleteAndCompareTxsNotInList bs localeCompare σ.beginTransaction
        (MempoolDiff.insertSortedTxids bs localeCompare [] (listing.map hashText))
          (!mayDelete)).2.txidList ↔
          ∃ t ∈ listing, text = hashText t ∧ ¬ (σ.db[Key.tx t]?).isSome := by
  have hlisting : ∀ text ∈ listing.map hashText, LowerHex text := by
    intro text hmem
    obtain ⟨t, -, rfl⟩ := List.mem_map.mp hmem
    exact lowerHex_hashText t
  obtain ⟨hkept, hmem⟩ := Kept.insertSortedTxids hcompare hbs
    (⟨List.Pairwise.nil, fun t ht => nomatch ht⟩ : Kept localeCompare []) hlisting
  obtain ⟨list, hlist⟩ : ∃ list,
      MempoolDiff.insertSortedTxids bs localeCompare [] (listing.map hashText) = list := ⟨_, rfl⟩
  rw [hlist] at hkept hmem ⊢
  obtain ⟨walked, hwalked⟩ : ∃ walked, (scan σ.db txEntry).foldl
      (compareTx bs localeCompare (!mayDelete)) ⟨list, [], σ.beginTransaction⟩ = walked := ⟨_, rfl⟩
  obtain ⟨-, hmems, hdeleted, hstore⟩ := Kept.walk hcompare hbs (!mayDelete)
    (nodup_scan_txEntry σ.db)
    (show Kept localeCompare (DiffState.mk list [] σ.beginTransaction).txidList from hkept)
  rw [hwalked] at hmems hdeleted hstore
  rw [List.nil_append] at hdeleted
  have hopen : walked.store.Open := hstore ▸ open_beginTransaction.addTransactions _
  have hdb : walked.store.db = σ.db := by
    rw [hstore]
    exact open_beginTransaction.addTransactions_db _
  have hinputs : (deleteInputsByHints walked.store walked.deletedTxs).2 =
      walked.store.addTransactions (walked.deletedTxs.flatMap (inputsOps walked.store.db)) :=
    deleteByHints_eq (fun _ _ => rfl) hopen _
  have hopen' : (deleteInputsByHints walked.store walked.deletedTxs).2.Open :=
    hinputs ▸ hopen.addTransactions _
  have houtputs : (deleteOutputsByHints (deleteInputsByHints walked.store walked.deletedTxs).2
      walked.deletedTxs).2 = (deleteInputsByHints walked.store walked.deletedTxs).2.addTransactions
        (walked.deletedTxs.flatMap
          (outputsOps (deleteInputsByHints walked.store walked.deletedTxs).2.db)) :=
    deleteByHints_eq (fun _ _ => rfl) hopen' _
  have hdb' : (deleteInputsByHints walked.store walked.deletedTxs).2.db = σ.db := by
    rw [hinputs, hopen.addTransactions_db, hdb]
  have hwalkedStore : walked.store =
      σ.beginTransaction.addTransactions (walked.deletedTxs.flatMap deleteTransactionOps) := by
    rw [hdeleted]
    exact hstore
  have hstate : deleteAndCompareTxsNotInList bs localeCompare σ.beginTransaction list
      (!mayDelete) = (⟨walked.deletedTxs.length,
        (deleteOutputsByHints (deleteInputsByHints walked.store walked.deletedTxs).2
          walked.deletedTxs).1, (deleteInputsByHints walked.store walked.deletedTxs).1⟩,
        { walked with store := (deleteOutputsByHints
          (deleteInputsByHints walked.store walked.deletedTxs).2 walked.deletedTxs).2 }) := by
    rw [← hwalked]
    rfl
  rw [hstate]
  have hlisted : ∀ t, hashText t ∈ list ↔ t ∈ listing := by
    intro t
    rw [hmem, List.mem_map]
    constructor
    · rintro (hnil | ⟨other, hother, htext⟩)
      · cases hnil
      · exact hashText_injective htext ▸ hother
    · intro ht
      exact Or.inr ⟨t, ht, rfl⟩
  refine ⟨walked.deletedTxs, fun t => ?_, ?_, fun text => ?_⟩
  · rw [hdeleted, unlisted]
    cases mayDelete with
    | false => simp
    | true => simp [mem_scan_txEntry, hlisted]
  · dsimp only
    rw [houtputs, hdb', hinputs, hdb, hwalkedStore, addTransactions_append, addTransactions_append]
  · dsimp only
    rw [hmems, hmem, List.mem_map]
    constructor
    · rintro ⟨hnil | ⟨t, ht, rfl⟩, hfresh⟩
      · cases hnil
      · refine ⟨t, ht, rfl, fun hstored => ?_⟩
        exact hfresh t (mem_scan_txEntry.mpr hstored) rfl
    · rintro ⟨t, ht, htext, hfresh⟩
      refine ⟨Or.inr ⟨t, ht, htext.symm⟩, fun other hother hother' => hfresh ?_⟩
      rw [hashText_injective (htext.symm.trans hother')]
      exact mem_scan_txEntry.mp hother

/-- **A prune** deletes the stored transactions that the node no longer lists, when it may, and
leaves the listed ones that are not stored. -/
theorem evicted_prune (hcompare : BinarySearch.Consistent localeCompare LowerHex)
    (hbs : BinarySearch.Contract bs localeCompare LowerHex) {σ σ' : LevelUpStore}
    {listing : List Hash} {mayDelete : Bool} {rawMempool : List TxidText}
    (hprune : pruneMempoolStore bs localeCompare σ
      (MempoolDiff.insertSortedTxids bs localeCompare [] (listing.map hashText)) mayDelete =
        .ok (rawMempool, σ')) :
    (∃ txids, (∀ t, t ∈ txids ↔
      mayDelete = true ∧ (σ.db[Key.tx t]?).isSome ∧ t ∉ listing) ∧ Evicted σ.db σ'.db txids) ∧
    ∀ text, text ∈ rawMempool ↔
      ∃ t ∈ listing, text = hashText t ∧ ¬ (σ.db[Key.tx t]?).isSome := by
  obtain ⟨txids, hdeleted, hstore, hlist⟩ :=
    exists_deleteAndCompare hcompare hbs σ listing mayDelete
  rw [pruneMempoolStore] at hprune
  obtain ⟨store, hend, hresult⟩ := Fallible.bind_eq_ok_iff.mp hprune
  obtain ⟨htexts, rfl⟩ := Prod.mk.inj (Except.ok.inj hresult)
  rw [htexts] at hlist
  rw [hstore] at hend
  refine ⟨⟨txids, hdeleted, evicted_of_ops hend fun k op => ?_⟩, hlist⟩
  rw [← evicts_iff]
  simp only [List.mem_append, List.mem_flatMap]
  constructor
  · rintro ((⟨t, ht, h⟩ | ⟨t, ht, h⟩) | ⟨t, ht, h⟩)
    · exact ⟨t, ht, Or.inl h⟩
    · exact ⟨t, ht, Or.inr (Or.inl h)⟩
    · exact ⟨t, ht, Or.inr (Or.inr h)⟩
  · rintro ⟨t, ht, h | h | h⟩
    · exact Or.inl (Or.inl ⟨t, ht, h⟩)
    · exact Or.inl (Or.inr ⟨t, ht, h⟩)
    · exact Or.inr ⟨t, ht, h⟩

theorem exists_prune (hcompare : BinarySearch.Consistent localeCompare LowerHex)
    (hbs : BinarySearch.Contract bs localeCompare LowerHex) (σ : LevelUpStore)
    (listing : List Hash) (mayDelete : Bool) :
    ∃ rawMempool σ', pruneMempoolStore bs localeCompare σ
      (MempoolDiff.insertSortedTxids bs localeCompare [] (listing.map hashText)) mayDelete =
        .ok (rawMempool, σ') := by
  obtain ⟨txids, -, hstore, -⟩ := exists_deleteAndCompare hcompare hbs σ listing mayDelete
  obtain ⟨store, hend, -⟩ := (open_beginTransaction.addTransactions _).endTransaction
  refine ⟨(deleteAndCompareTxsNotInList bs localeCompare σ.beginTransaction
    (MempoolDiff.insertSortedTxids bs localeCompare [] (listing.map hashText))
      (!mayDelete)).2.txidList,
    store, ?_⟩
  rw [pruneMempoolStore, hstore]
  exact Fallible.bind_eq_ok_iff.mpr ⟨store, hend, rfl⟩

end Prune

/-! ### The records of a transaction -/

/-- The transaction a record belongs to; an `I` record belongs to the outpoint. -/
def owner : Key → Option Hash
  | .tx t | .inHint t _ _ | .outHint t _ | .output _ t _ => some t
  | _ => none

def spends (tx : Tx) : List OutPoint :=
  (tx.ins.filter TxIn.spends).map fun input => ⟨input.hash, input.index⟩

/-- What a transaction's record holds. -/
def recordOf (tx : Tx) : Key → Option Value
  | .tx _ => some (.txRecord zeroHash tx.id)
  | .inHint _ p i => if (⟨p, i⟩ : OutPoint) ∈ spends tx then some .empty else none
  | .outHint _ i => (newOutputs tx (-1))[i]?.map fun output => .hash output.scriptPubKey
  | .output s _ i =>
      (newOutputs tx (-1))[i]?.bind fun output =>
        if output.scriptPubKey = s then some (.output output.record) else none
  | _ => none

theorem getElem?_newOutputs {tx : Tx} {i : Nat} {output : NewOutput}
    (hget : (newOutputs tx (-1))[i]? = some output) :
    output.txHash = tx.id ∧ output.outputIndex = i := by
  rw [newOutputs, List.getElem?_mapIdx, Option.map_eq_some_iff] at hget
  obtain ⟨out, -, rfl⟩ := hget
  exact ⟨rfl, rfl⟩

theorem mem_newOutputs {tx : Tx} {output : NewOutput} :
    output ∈ newOutputs tx (-1) ↔ (newOutputs tx (-1))[output.outputIndex]? = some output := by
  constructor
  · intro hmem
    obtain ⟨i, hi, hget⟩ := List.mem_iff_getElem.mp hmem
    have hsome : (newOutputs tx (-1))[i]? = some output := by rw [List.getElem?_eq_getElem hi, hget]
    rw [(getElem?_newOutputs hsome).2, hsome]
  · exact List.mem_of_getElem?

theorem mem_spentOps {tx : Tx} {k : Key} {op : WriteOp Value} :
    (k, op) ∈ spentOps tx ↔ ∃ p i, (⟨p, i⟩ : OutPoint) ∈ spends tx ∧
      (k = .input p i ∧ op = .put (.hash tx.id) ∨ k = .inHint tx.id p i ∧ op = .put .empty) := by
  simp only [spentOps, spends, List.mem_flatMap, List.mem_map, List.mem_cons, List.not_mem_nil,
    or_false, Prod.mk.injEq, OutPoint.mk.injEq]
  constructor
  · rintro ⟨input, hmem, h⟩
    exact ⟨input.hash, input.index, ⟨input, hmem, rfl, rfl⟩, h⟩
  · rintro ⟨p, i, ⟨input, hmem, rfl, rfl⟩, h⟩
    exact ⟨input, hmem, h⟩

theorem mem_createdOps {tx : Tx} {k : Key} {op : WriteOp Value} :
    (k, op) ∈ createdOps tx ↔ ∃ output i, (newOutputs tx (-1))[i]? = some output ∧
      (k = .output output.scriptPubKey tx.id i ∧ op = .put (.output output.record) ∨
        k = .outHint tx.id i ∧ op = .put (.hash output.scriptPubKey)) := by
  simp only [createdOps, List.mem_flatMap, List.mem_cons, List.not_mem_nil, or_false,
    Prod.mk.injEq]
  constructor
  · rintro ⟨output, hmem, h⟩
    have hget := mem_newOutputs.mp hmem
    rw [(getElem?_newOutputs hget).1] at h
    exact ⟨output, output.outputIndex, hget, h⟩
  · rintro ⟨output, i, hget, h⟩
    obtain ⟨hid, rfl⟩ := getElem?_newOutputs hget
    rw [← hid] at h
    exact ⟨output, mem_newOutputs.mpr hget, h⟩

/-- **What parsing writes**: its records, and an `I` record for each outpoint it spends. -/
theorem mem_parseOps {tx : Tx} {k : Key} {op : WriteOp Value} :
    (k, op) ∈ parseOps tx ↔
      (owner k = some tx.id ∧ ∃ value, recordOf tx k = some value ∧ op = .put value) ∨
        ∃ p i, k = .input p i ∧ (⟨p, i⟩ : OutPoint) ∈ spends tx ∧ op = .put (.hash tx.id) := by
  rw [parseOps, List.mem_append, List.mem_append, mem_spentOps, mem_createdOps,
    List.mem_singleton, Prod.mk.injEq]
  constructor
  · rintro ((⟨rfl, rfl⟩ | ⟨p, i, hspends, ⟨rfl, rfl⟩ | ⟨rfl, rfl⟩⟩) |
      ⟨output, i, hget, ⟨rfl, rfl⟩ | ⟨rfl, rfl⟩⟩)
    · exact Or.inl ⟨rfl, _, rfl, rfl⟩
    · exact Or.inr ⟨p, i, rfl, hspends, rfl⟩
    · exact Or.inl ⟨rfl, _, if_pos hspends, rfl⟩
    · refine Or.inl ⟨rfl, .output output.record, ?_, rfl⟩
      rw [recordOf, hget, Option.bind_some, if_pos rfl]
    · refine Or.inl ⟨rfl, .hash output.scriptPubKey, ?_, rfl⟩
      rw [recordOf, hget, Option.map_some]
  · rintro (⟨howner, value, hrecord, rfl⟩ | ⟨p, i, rfl, hspends, rfl⟩)
    · cases k with
      | tx t =>
          obtain rfl : t = tx.id := Option.some.inj howner
          obtain rfl : Value.txRecord zeroHash tx.id = value := Option.some.inj hrecord
          exact Or.inl (Or.inl ⟨rfl, rfl⟩)
      | inHint t p i =>
          obtain rfl : t = tx.id := Option.some.inj howner
          rw [recordOf] at hrecord
          split_ifs at hrecord with hspends
          obtain rfl : Value.empty = value := Option.some.inj hrecord
          exact Or.inl (Or.inr ⟨p, i, hspends, Or.inr ⟨rfl, rfl⟩⟩)
      | outHint t i =>
          obtain rfl : t = tx.id := Option.some.inj howner
          rw [recordOf, Option.map_eq_some_iff] at hrecord
          obtain ⟨output, hget, rfl⟩ := hrecord
          exact Or.inr ⟨output, i, hget, Or.inr ⟨rfl, rfl⟩⟩
      | output s t i =>
          obtain rfl : t = tx.id := Option.some.inj howner
          rw [recordOf, Option.bind_eq_some_iff] at hrecord
          obtain ⟨output, hget, hscript⟩ := hrecord
          split_ifs at hscript with hsame
          obtain rfl : Value.output output.record = value := Option.some.inj hscript
          exact Or.inr ⟨output, i, hget, Or.inl ⟨by rw [hsame], rfl⟩⟩
      | _ => cases howner
    · exact Or.inl (Or.inr ⟨p, i, hspends, Or.inl ⟨rfl, rfl⟩⟩)

/-! ### Staging a batch -/

theorem stageTxs_ok {σ σ' : LevelUpStore} {fetched : List Fetched} {txids : List TxidText}
    (hstage : stageTxs σ fetched txids = .ok σ') :
    ∃ txs : List Tx, σ' = σ.addTransactions (txs.flatMap parseOps) ∧
      ∀ tx, tx ∈ txs ↔ .parsed tx ∈ fetched ∧ Transparent tx := by
  induction fetched generalizing σ txids with
  | nil =>
      obtain rfl : σ = σ' := Except.ok.inj hstage
      exact ⟨[], rfl, fun tx => by simp⟩
  | cons answer rest ih =>
      cases answer with
      | missing =>
          obtain ⟨txs, hstore, hmem⟩ := ih hstage
          refine ⟨txs, hstore, fun tx => ?_⟩
          rw [hmem, List.mem_cons]
          simp
      | malformed => cases hstage
      | parsed tx =>
          obtain ⟨stageable, hstageable, hrest⟩ := Fallible.bind_eq_ok_iff.mp hstage
          obtain ⟨txs, hstore, hmem⟩ := ih hrest
          rw [isStageableMempoolTx] at hstageable
          by_cases hempty : tx.ins = [] ∧ tx.outs = []
          · rw [if_pos hempty] at hstageable
            obtain rfl : false = stageable := Except.ok.inj hstageable
            refine ⟨txs, hstore, fun other => ?_⟩
            rw [hmem, List.mem_cons, Fetched.parsed.injEq]
            constructor
            · rintro ⟨h, htransparent⟩
              exact ⟨Or.inr h, htransparent⟩
            · rintro ⟨rfl | h, htransparent⟩
              · exact absurd hempty htransparent
              · exact ⟨h, htransparent⟩
          · rw [if_neg hempty] at hstageable
            split_ifs at hstageable
            obtain rfl : true = stageable := Except.ok.inj hstageable
            refine ⟨tx :: txs, ?_, fun other => ?_⟩
            · rw [hstore, if_pos rfl, parseTransaction_eq, List.flatMap_cons,
                addTransactions_append]
            · rw [List.mem_cons, hmem, List.mem_cons, Fetched.parsed.injEq]
              constructor
              · rintro (rfl | ⟨h, htransparent⟩)
                · exact ⟨Or.inl rfl, hempty⟩
                · exact ⟨Or.inr h, htransparent⟩
              · rintro ⟨rfl | h, htransparent⟩
                · exact Or.inl rfl
                · exact Or.inr ⟨h, htransparent⟩

/-- The records of a database with some transactions added. -/
structure Loaded (body : Hash → Tx) (db db' : Db) (txids : List Hash) : Prop where
  named : ∀ t ∈ txids, Transparent (body t) ∧ (body t).id = t
  records : ∀ k : Key, (∀ p i, k ≠ .input p i) → db'[k]? =
    ((owner k).bind fun t => if t ∈ txids then recordOf (body t) k else none).or db[k]?
  spent : ∀ p i, (∃ t ∈ txids, (⟨p, i⟩ : OutPoint) ∈ spends (body t)) →
    ∃ t ∈ txids, (⟨p, i⟩ : OutPoint) ∈ spends (body t) ∧ db'[Key.input p i]? = some (.hash t)
  unspent : ∀ p i, (∀ t ∈ txids, (⟨p, i⟩ : OutPoint) ∉ spends (body t)) →
    db'[Key.input p i]? = db[Key.input p i]?

/-- **A batch** adds the transactions that came, but for those without inputs and outputs. -/
theorem loaded_batch {body : Hash → Tx} {σ σ' : LevelUpStore} {fetched : List Fetched}
    {nodeTxids : List TxidText} (hstage : stageMempoolBatch σ fetched nodeTxids = .ok σ')
    (hbody : ∀ tx, .parsed tx ∈ fetched → Transparent tx → tx = body tx.id) :
    ∃ txids, (∀ t, t ∈ txids ↔
      .parsed (body t) ∈ fetched ∧ Transparent (body t) ∧ (body t).id = t) ∧
      Loaded body σ.db σ'.db txids := by
  obtain ⟨store, hstaged, hend⟩ := Fallible.bind_eq_ok_iff.mp hstage
  obtain ⟨txs, rfl, htxs⟩ := stageTxs_ok hstaged
  have hend : (σ.beginTransaction.addTransactions (txs.flatMap parseOps)).endTransaction true =
      .ok σ' := by
    cases hcommit : (σ.beginTransaction.addTransactions (txs.flatMap parseOps)).endTransaction true
      with
    | error message =>
        rw [hcommit] at hend
        cases hend
    | ok store =>
        rw [hcommit] at hend
        exact congrArg Except.ok (Except.ok.inj hend)
  have hmem : ∀ t, t ∈ txs.map Tx.id ↔
      .parsed (body t) ∈ fetched ∧ Transparent (body t) ∧ (body t).id = t := by
    intro t
    rw [List.mem_map]
    constructor
    · rintro ⟨tx, htx, rfl⟩
      obtain ⟨hparsed, htransparent⟩ := (htxs tx).mp htx
      have hsame := hbody tx hparsed htransparent
      exact ⟨hsame ▸ hparsed, hsame ▸ htransparent, congrArg Tx.id hsame.symm⟩
    · rintro ⟨hparsed, htransparent, hid⟩
      exact ⟨body t, (htxs _).mpr ⟨hparsed, htransparent⟩, hid⟩
  have hsame : ∀ tx ∈ txs, body tx.id = tx := by
    intro tx htx
    obtain ⟨hparsed, htransparent⟩ := (htxs tx).mp htx
    exact (hbody tx hparsed htransparent).symm
  have hops : ∀ (k : Key) op, (k, op) ∈ txs.flatMap parseOps ↔
      (∃ t ∈ txs.map Tx.id, owner k = some t ∧
        ∃ value, recordOf (body t) k = some value ∧ op = .put value) ∨
      ∃ t ∈ txs.map Tx.id, ∃ p i, k = .input p i ∧ (⟨p, i⟩ : OutPoint) ∈ spends (body t) ∧
        op = .put (.hash t) := by
    intro k op
    rw [List.mem_flatMap]
    constructor
    · rintro ⟨tx, htx, hop⟩
      have hid : tx.id ∈ txs.map Tx.id := List.mem_map_of_mem htx
      rw [mem_parseOps] at hop
      rw [← hsame tx htx] at hop
      have hbodyId : (body tx.id).id = tx.id := by rw [hsame tx htx]
      rw [hbodyId] at hop
      rcases hop with ⟨howner, hvalue⟩ | hinput
      · exact Or.inl ⟨tx.id, hid, howner, hvalue⟩
      · exact Or.inr ⟨tx.id, hid, hinput⟩
    · rintro (⟨t, ht, howner, hvalue⟩ | ⟨t, ht, hinput⟩)
      · obtain ⟨tx, htx, rfl⟩ := List.mem_map.mp ht
        rw [hsame tx htx] at hvalue
        exact ⟨tx, htx, mem_parseOps.mpr (Or.inl ⟨howner, hvalue⟩)⟩
      · obtain ⟨tx, htx, rfl⟩ := List.mem_map.mp ht
        rw [hsame tx htx] at hinput
        exact ⟨tx, htx, mem_parseOps.mpr (Or.inr hinput)⟩
  refine ⟨txs.map Tx.id, hmem, ⟨fun t ht => ((hmem t).mp ht).2, ?_, ?_, ?_⟩⟩
  · intro k hk
    rw [db_endTransaction hend]
    rcases getLast?_valuesAt k (txs.flatMap parseOps) with ⟨hnone, habsent⟩ | ⟨op, hsome, hop⟩
    · have hrecord : ((owner k).bind fun t =>
          if t ∈ txs.map Tx.id then recordOf (body t) k else none) = none := by
        rw [Option.bind_eq_none_iff]
        intro t howner
        split_ifs with ht
        · rw [Option.eq_none_iff_forall_ne_some]
          intro value hvalue
          exact habsent (.put value) ((hops k _).mpr (Or.inl ⟨t, ht, howner, value, hvalue, rfl⟩))
        · rfl
      rw [hnone, overlay_none, hrecord, Option.none_or]
    · rcases (hops k op).mp hop with ⟨t, ht, howner, value, hvalue, rfl⟩ | ⟨-, -, p, i, rfl, -⟩
      · rw [hsome, overlay_put, howner, Option.bind_some, if_pos ht, hvalue, Option.some_or]
      · exact absurd rfl (hk p i)
  · rintro p i ⟨t, ht, hspends⟩
    rw [db_endTransaction hend]
    rcases getLast?_valuesAt (.input p i) (txs.flatMap parseOps) with
      ⟨-, habsent⟩ | ⟨op, hsome, hop⟩
    · exact absurd ((hops _ _).mpr (Or.inr ⟨t, ht, p, i, rfl, hspends, rfl⟩)) (habsent _)
    · rcases (hops _ op).mp hop with ⟨_, _, howner, _⟩ | ⟨t', ht', p', i', hkey, hspends', rfl⟩
      · cases howner
      · cases hkey
        exact ⟨t', ht', hspends', by rw [hsome, overlay_put]⟩
  · intro p i hunspent
    rw [db_endTransaction hend]
    rcases getLast?_valuesAt (.input p i) (txs.flatMap parseOps) with ⟨hnone, -⟩ | ⟨op, hsome, hop⟩
    · rw [hnone, overlay_none]
    · rcases (hops _ op).mp hop with ⟨_, _, howner, _⟩ | ⟨t, ht, p', i', hkey, hspends, -⟩
      · cases howner
      · cases hkey
        exact absurd hspends (hunspent t ht)

/-- What an available transaction is staged under is the txid the node listed. -/
theorem parsed_available {body : Hash → Tx} {σ σ' : LevelUpStore} {fetched : List Fetched}
    {nodeTxids : List TxidText} (havailable : Available body fetched nodeTxids)
    (hstage : stageTxs σ fetched nodeTxids = .ok σ') {tx : Tx} (htransparent : Transparent tx) :
    .parsed tx ∈ fetched ↔ hashText tx.id ∈ nodeTxids ∧ tx = body tx.id := by
  induction havailable generalizing σ with
  | nil => simp
  | @cons answer text fetched texts hanswer hrest ih =>
      obtain ⟨t, htext, hanswer⟩ := hanswer
      rw [htext, hanswer] at hstage ⊢
      obtain ⟨stageable, hstageable, hstage⟩ := Fallible.bind_eq_ok_iff.mp hstage
      rw [List.mem_cons, List.mem_cons, ih hstage, Fetched.parsed.injEq, or_and_right]
      refine or_congr_left ⟨?_, ?_⟩
      · rintro rfl
        rw [isStageableMempoolTx, if_neg htransparent, List.head?_cons] at hstageable
        split_ifs at hstageable with hid
        have hid : hashText t = hashText (body t).id := Option.some.inj (Decidable.not_not.mp hid)
        exact ⟨hid.symm, congrArg body (hashText_injective hid)⟩
      · rintro ⟨hid, hbody⟩
        rw [← hashText_injective hid, ← hbody]

theorem id_available {body : Hash → Tx} {σ σ' : LevelUpStore} {fetched : List Fetched}
    {nodeTxids : List TxidText} (havailable : Available body fetched nodeTxids)
    (hstage : stageTxs σ fetched nodeTxids = .ok σ') {t : Hash}
    (hmem : hashText t ∈ nodeTxids) (htransparent : Transparent (body t)) : (body t).id = t := by
  induction havailable generalizing σ with
  | nil => cases hmem
  | @cons answer text fetched texts hanswer hrest ih =>
      obtain ⟨t', htext, hanswer⟩ := hanswer
      rw [htext, hanswer] at hstage
      obtain ⟨stageable, hstageable, hstage⟩ := Fallible.bind_eq_ok_iff.mp hstage
      rcases List.mem_cons.mp hmem with hhead | htail
      · rw [htext] at hhead
        obtain rfl := hashText_injective hhead
        rw [isStageableMempoolTx, if_neg htransparent, List.head?_cons] at hstageable
        split_ifs at hstageable with hid
        exact (hashText_injective (Option.some.inj (Decidable.not_not.mp hid))).symm
      · exact ih hstage htail

theorem Loaded.refl {body : Hash → Tx} (db : Db) : Loaded body db db [] where
  named := by
    intro t ht
    cases ht
  records := by
    intro k _
    cases owner k <;> rfl
  spent := by
    rintro p i ⟨t, ht, -⟩
    cases ht
  unspent := fun _ _ _ => rfl

theorem Loaded.trans {body : Hash → Tx} {db₀ db₁ db₂ : Db} {first rest : List Hash}
    (hfirst : Loaded body db₀ db₁ first) (hrest : Loaded body db₁ db₂ rest) :
    Loaded body db₀ db₂ (first ++ rest) where
  named := by
    intro t ht
    rcases List.mem_append.mp ht with ht | ht
    · exact hfirst.named t ht
    · exact hrest.named t ht
  records := by
    intro k hk
    rw [hrest.records k hk, hfirst.records k hk, ← Option.or_assoc]
    congr 1
    cases owner k with
    | none => rfl
    | some t =>
        rw [Option.bind_some, Option.bind_some, Option.bind_some]
        by_cases ht : t ∈ rest
        · rw [if_pos ht, if_pos (List.mem_append_right first ht)]
          split_ifs
          · exact Option.or_self
          · exact Option.or_none
        · rw [if_neg ht, Option.none_or]
          simp only [List.mem_append, ht, or_false]
  spent := by
    intro p i hspent
    by_cases hlater : ∃ t ∈ rest, (⟨p, i⟩ : OutPoint) ∈ spends (body t)
    · obtain ⟨t, ht, hget⟩ := hrest.spent p i hlater
      exact ⟨t, List.mem_append_right first ht, hget⟩
    · obtain ⟨t, ht, hspends⟩ := hspent
      have ht : t ∈ first := by
        refine (List.mem_append.mp ht).resolve_right fun hlate => ?_
        exact hlater ⟨t, hlate, hspends⟩
      obtain ⟨t', ht', hspends', hget⟩ := hfirst.spent p i ⟨t, ht, hspends⟩
      refine ⟨t', List.mem_append_left rest ht', hspends', ?_⟩
      rw [hrest.unspent p i fun t ht hspends => hlater ⟨t, ht, hspends⟩, hget]
  unspent := by
    intro p i hunspent
    rw [hrest.unspent p i fun t ht => hunspent t (List.mem_append_right first ht),
      hfirst.unspent p i fun t ht => hunspent t (List.mem_append_left rest ht)]

/-- **The batches of a pass** add what it has to fetch. -/
theorem Reconverges.loaded {body : Hash → Tx} {σ σ' : LevelUpStore} {pending : List TxidText}
    (hpass : Reconverges body σ pending σ') :
    ∃ txids, (∀ t, t ∈ txids ↔ hashText t ∈ pending ∧ Transparent (body t)) ∧
      Loaded body σ.db σ'.db txids := by
  induction hpass with
  | done => exact ⟨[], fun t => by simp, Loaded.refl _⟩
  | @batch σ σ' σ'' pending fetched hne havailable hstage hrest ih =>
      obtain ⟨rest, hmem, hloaded⟩ := ih
      obtain ⟨store, hstaged, -⟩ := Fallible.bind_eq_ok_iff.mp hstage
      obtain ⟨first, hfirst, hbatch⟩ := loaded_batch hstage fun tx hparsed htransparent =>
        ((parsed_available havailable hstaged htransparent).mp hparsed).2
      refine ⟨first ++ rest, fun t => ?_, hbatch.trans hloaded⟩
      have hsplit : hashText t ∈ pending ↔
          hashText t ∈ pending.take batchSize ∨ hashText t ∈ pending.drop batchSize := by
        rw [← List.mem_append, List.take_append_drop]
      rw [List.mem_append, hfirst, hmem, hsplit, or_and_right]
      refine or_congr_left ⟨?_, ?_⟩
      · rintro ⟨hparsed, htransparent, hid⟩
        have hlisted := ((parsed_available havailable hstaged htransparent).mp hparsed).1
        exact ⟨hid ▸ hlisted, htransparent⟩
      · rintro ⟨hlisted, htransparent⟩
        have hid := id_available havailable hstaged hlisted htransparent
        refine ⟨(parsed_available havailable hstaged htransparent).mpr ?_, htransparent, hid⟩
        rw [hid]
        exact ⟨hlisted, rfl⟩

/-! ### Passes -/

theorem exists_stageTxs {body : Hash → Tx} {ts : List Hash} (hid : ∀ t ∈ ts, (body t).id = t)
    (σ : LevelUpStore) :
    ∃ σ', stageTxs σ (ts.map fun t => .parsed (body t)) (ts.map hashText) = .ok σ' := by
  induction ts generalizing σ with
  | nil => exact ⟨σ, rfl⟩
  | cons t ts ih =>
      have ih := ih fun t' ht' => hid t' (List.mem_cons_of_mem t ht')
      have hhead : ∃ stageable,
          isStageableMempoolTx (body t) (some (hashText t)) = .ok stageable := by
        rw [isStageableMempoolTx, hid t List.mem_cons_self]
        by_cases hempty : (body t).ins = [] ∧ (body t).outs = []
        · exact ⟨false, if_pos hempty⟩
        · refine ⟨true, ?_⟩
          rw [if_neg hempty, if_neg (not_not_intro rfl)]
      obtain ⟨stageable, hstageable⟩ := hhead
      obtain ⟨σ', hrest⟩ := ih (if stageable then parseTransaction σ (body t) else σ)
      exact ⟨σ', Fallible.bind_eq_ok_iff.mpr ⟨stageable, hstageable, hrest⟩⟩

theorem exists_stageMempoolBatch {body : Hash → Tx} {ts : List Hash}
    (hid : ∀ t ∈ ts, (body t).id = t) (σ : LevelUpStore) :
    ∃ σ', stageMempoolBatch σ (ts.map fun t => .parsed (body t)) (ts.map hashText) = .ok σ' := by
  obtain ⟨staged, hstaged⟩ := exists_stageTxs hid σ.beginTransaction
  obtain ⟨txs, hops, -⟩ := stageTxs_ok hstaged
  obtain ⟨store, hend, -⟩ :=
    ((open_beginTransaction : σ.beginTransaction.Open).addTransactions
      (txs.flatMap parseOps)).endTransaction
  refine ⟨store, Fallible.bind_eq_ok_iff.mpr ⟨staged, hstaged, ?_⟩⟩
  rw [hops, hend]
  rfl

theorem available_map (body : Hash → Tx) (ts : List Hash) :
    Available body (ts.map fun t => .parsed (body t)) (ts.map hashText) := by
  rw [Available, List.forall₂_map_left_iff, List.forall₂_map_right_iff, List.forall₂_same]
  exact fun t _ => ⟨t, rfl, rfl⟩

theorem exists_reconverges {body : Hash → Tx} (ts : List Hash) (hid : ∀ t ∈ ts, (body t).id = t)
    (σ : LevelUpStore) : ∃ σ', Reconverges body σ (ts.map hashText) σ' := by
  induction hlength : ts.length using Nat.strong_induction_on generalizing ts σ with
  | _ length ih =>
      by_cases hnil : ts = []
      · exact ⟨σ, hnil ▸ Reconverges.done⟩
      · have hshorter : (ts.drop batchSize).length < length := by
          have hbatch : 0 < batchSize := by decide
          have hpos := List.length_pos_of_ne_nil hnil
          rw [List.length_drop]
          omega
        have htake : (ts.map hashText).take batchSize = (ts.take batchSize).map hashText :=
          List.map_take.symm
        have hdrop : (ts.map hashText).drop batchSize = (ts.drop batchSize).map hashText :=
          List.map_drop.symm
        obtain ⟨σ₁, hstage⟩ := exists_stageMempoolBatch
          (fun t (ht : t ∈ ts.take batchSize) => hid t (List.mem_of_mem_take ht)) σ
        obtain ⟨σ', hrest⟩ := ih _ hshorter (ts.drop batchSize)
          (fun t ht => hid t (List.mem_of_mem_drop ht)) σ₁ rfl
        have hne : ts.map hashText ≠ [] := fun h => hnil (List.map_eq_nil_iff.mp h)
        rw [← htake] at hstage
        rw [← hdrop] at hrest
        have havailable : Available body ((ts.take batchSize).map fun t => .parsed (body t))
            ((ts.map hashText).take batchSize) := by
          rw [htake]
          exact available_map body (ts.take batchSize)
        exact ⟨σ', .batch _ hne havailable hstage hrest⟩

section Pass

variable {bs : List TxidText → TxidText → (TxidText → TxidText → Int) → Int}
  {localeCompare : TxidText → TxidText → Int} {body : Hash → Tx}

/-- **A pass completes** when every listed transaction is served under its txid. -/
theorem exists_completesPass (hcompare : BinarySearch.Consistent localeCompare LowerHex)
    (hbs : BinarySearch.Contract bs localeCompare LowerHex) (σ : LevelUpStore)
    {listing : List Hash} (hid : ∀ t ∈ listing, (body t).id = t) (mayDelete : Bool) :
    ∃ σ', CompletesPass bs localeCompare body σ listing mayDelete σ' := by
  obtain ⟨rawMempool, σ₁, hprune⟩ := exists_prune hcompare hbs σ listing mayDelete
  have hraw := (evicted_prune hcompare hbs hprune).2
  obtain ⟨ts, rfl⟩ : ∃ ts : List Hash, ts.map hashText = rawMempool := by
    have hrange : rawMempool ∈ {l | ∀ text ∈ l, text ∈ Set.range hashText} := by
      intro text htext
      obtain ⟨t, -, hname, -⟩ := (hraw text).mp htext
      exact ⟨t, hname.symm⟩
    rwa [← Set.range_list_map] at hrange
  obtain ⟨σ', hrest⟩ := exists_reconverges ts (fun t ht => by
    obtain ⟨t', ht', htext, -⟩ := (hraw (hashText t)).mp (List.mem_map_of_mem ht)
    exact hashText_injective htext ▸ hid t' ht') σ₁
  exact ⟨σ', _, σ₁, hprune, hrest⟩

theorem Reconverges.steps {σ σ' : LevelUpStore} {pending : List TxidText}
    (hpass : Reconverges body σ pending σ') :
    Relation.ReflTransGen (Step bs localeCompare body) ⟨σ, some pending⟩ ⟨σ', some []⟩ := by
  induction hpass with
  | done => exact .refl
  | @batch σ σ' σ'' pending fetched _ havailable hstage _ ih =>
      obtain ⟨store, hstaged, -⟩ := Fallible.bind_eq_ok_iff.mp hstage
      refine Relation.ReflTransGen.head (.batch fetched ?_ hstage) ih
      intro tx hparsed htransparent
      exact ((parsed_available havailable hstaged htransparent).mp hparsed).2

/-- A completed pass is a run from an idle store to an idle store. -/
theorem CompletesPass.steps {σ σ' : LevelUpStore} {listing : List Hash} {mayDelete : Bool}
    (hpass : CompletesPass bs localeCompare body σ listing mayDelete σ') :
    Relation.ReflTransGen (Step bs localeCompare body) ⟨σ, none⟩ ⟨σ', none⟩ := by
  obtain ⟨rawMempool, σ₁, hprune, hrest⟩ := hpass
  exact (Relation.ReflTransGen.head (.pruned listing mayDelete hprune) hrest.steps).tail .finished

/-- What a completed pass deletes and adds. -/
theorem CompletesPass.evicted_loaded
    (hcompare : BinarySearch.Consistent localeCompare LowerHex)
    (hbs : BinarySearch.Contract bs localeCompare LowerHex) {σ σ' : LevelUpStore}
    {listing : List Hash} {mayDelete : Bool}
    (hpass : CompletesPass bs localeCompare body σ listing mayDelete σ') :
    ∃ db txids fresh, Evicted σ.db db txids ∧ Loaded body db σ'.db fresh ∧
      (∀ t, t ∈ txids ↔ mayDelete = true ∧ (σ.db[Key.tx t]?).isSome ∧ t ∉ listing) ∧
      ∀ t, t ∈ fresh ↔ t ∈ listing ∧ ¬ (σ.db[Key.tx t]?).isSome ∧ Transparent (body t) := by
  obtain ⟨rawMempool, σ₁, hprune, hrest⟩ := hpass
  obtain ⟨⟨txids, hdeleted, hevicted⟩, hraw⟩ := evicted_prune hcompare hbs hprune
  obtain ⟨fresh, hfresh, hloaded⟩ := hrest.loaded
  refine ⟨σ₁.db, txids, fresh, hevicted, hloaded, hdeleted, fun t => ?_⟩
  rw [hfresh, hraw]
  constructor
  · rintro ⟨⟨t', ht', htext, hnew⟩, htransparent⟩
    obtain rfl := hashText_injective htext
    exact ⟨ht', hnew, htransparent⟩
  · rintro ⟨ht, hnew, htransparent⟩
    exact ⟨⟨t, ht, rfl, hnew⟩, htransparent⟩

end Pass

end UtxoTracker.Mempool

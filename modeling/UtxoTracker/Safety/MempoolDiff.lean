import Mathlib.Data.Char
import Mathlib.Data.List.Lex
import UtxoTracker.Lib.BinarySearch
import UtxoTracker.Safety.KeyCodec
import UtxoTracker.Store.MempoolDiff
/-!
# The mempool diff is exact

The list that a pass goes on to fetch is the listing without the stored transactions, and the
transactions it stages for deletion are the stored ones without the listing.
-/

namespace UtxoTracker.MempoolDiff

open BinarySearch ByteString KeyedStore LevelUpStore

/-- A text of lower-case hexadecimal digits. -/
def LowerHex (text : TxidText) : Prop := ∀ c ∈ text, IsDigit c

theorem lowerHex_hashText (txid : Hash) : LowerHex (hashText txid) := (isHashText_hashText txid).2

theorem hashText_injective : Function.Injective hashText := by
  intro a b heq
  have hbytes : hashBytes a = hashBytes b := by
    rw [hashBytes, hashBytes, ← ofHex_hashText, heq, ofHex_hashText]
  exact (readHash_hashBytes a).symm.trans (hbytes ▸ readHash_hashBytes b)

section Diff

variable {bs : List TxidText → TxidText → (TxidText → TxidText → Int) → Int}
  {localeCompare : TxidText → TxidText → Int}

/-- A list as the passes keep it. -/
structure Kept (localeCompare : TxidText → TxidText → Int) (list : List TxidText) : Prop where
  sorted : Sorted localeCompare list
  lower : ∀ text ∈ list, LowerHex text

/-! ### Sorting the listing -/

theorem Kept.insertSortedTxid (hcompare : Consistent localeCompare LowerHex)
    (hbs : Contract bs localeCompare LowerHex) {list : List TxidText}
    (hkept : Kept localeCompare list) {text : TxidText} (hlower : LowerHex text) :
    Kept localeCompare (insertSortedTxid bs localeCompare list text) ∧
      ∀ t, t ∈ insertSortedTxid bs localeCompare list text ↔ t = text ∨ t ∈ list := by
  unfold MempoolDiff.insertSortedTxid
  dsimp only
  split_ifs with hneg
  · refine ⟨⟨hbs.sorted_insert hcompare hkept.sorted hkept.lower hlower hneg, fun t hmem => ?_⟩,
      fun t => mem_insert _⟩
    rcases (mem_insert _).mp hmem with rfl | hmem
    · exact hlower
    · exact hkept.lower t hmem
  · have hmem := (hbs.nonneg_iff hcompare hkept.sorted hkept.lower hlower).mp (by omega)
    refine ⟨hkept, fun t => ⟨.inr, ?_⟩⟩
    rintro (rfl | hin)
    · exact hmem
    · exact hin

/-- The sorted list has what was there and what was listed. -/
theorem Kept.insertSortedTxids (hcompare : Consistent localeCompare LowerHex)
    (hbs : Contract bs localeCompare LowerHex) {listing list : List TxidText}
    (hkept : Kept localeCompare list) (hlisting : ∀ t ∈ listing, LowerHex t) :
    Kept localeCompare (insertSortedTxids bs localeCompare list listing) ∧
      ∀ t, t ∈ insertSortedTxids bs localeCompare list listing ↔ t ∈ list ∨ t ∈ listing := by
  induction listing generalizing list with
  | nil => exact ⟨hkept, fun t => by simp [MempoolDiff.insertSortedTxids]⟩
  | cons text listing ih =>
      obtain ⟨hnext, hmem⟩ := hkept.insertSortedTxid hcompare hbs (hlisting text List.mem_cons_self)
      obtain ⟨hrest, hmems⟩ := ih hnext fun t ht => hlisting t (List.mem_cons_of_mem _ ht)
      refine ⟨hrest, fun t => ?_⟩
      have hunfold : MempoolDiff.insertSortedTxids bs localeCompare list (text :: listing) =
          MempoolDiff.insertSortedTxids bs localeCompare
            (MempoolDiff.insertSortedTxid bs localeCompare list text) listing := rfl
      rw [hunfold, hmems, hmem, List.mem_cons]
      tauto

/-! ### The walk -/

/-- The stored transactions that a walk stages for deletion. -/
def unlisted (keepOnly : Bool) (list : List TxidText) (txids : List Hash) : List Hash :=
  if keepOnly then [] else txids.filter fun txid => decide (hashText txid ∉ list)

theorem unlisted_cons (keepOnly : Bool) {list list' : List TxidText} {txid : Hash}
    {txids : List Hash} (hfresh : txid ∉ txids)
    (hmem : ∀ t, t ∈ list' ↔ t ∈ list ∧ t ≠ hashText txid) :
    unlisted keepOnly list (txid :: txids) =
      unlisted keepOnly list [txid] ++ unlisted keepOnly list' txids := by
  have hsame : txids.filter (fun other => decide (hashText other ∉ list')) =
      txids.filter fun other => decide (hashText other ∉ list) := by
    refine List.filter_congr fun other hother => ?_
    have hne : hashText other ≠ hashText txid := fun heq =>
      hfresh (hashText_injective heq ▸ hother)
    rw [decide_eq_decide, hmem]
    exact not_congr (and_iff_left hne)
  cases keepOnly with
  | true => rfl
  | false =>
      simp only [unlisted, Bool.false_eq_true, if_false]
      rw [hsame, ← List.filter_append, List.singleton_append]

/-- What the walk does with one stored transaction. -/
theorem Kept.compareTx (hcompare : Consistent localeCompare LowerHex)
    (hbs : Contract bs localeCompare LowerHex) (keepOnly : Bool) {state : DiffState}
    (hkept : Kept localeCompare state.txidList) (txid : Hash) :
    Kept localeCompare (compareTx bs localeCompare keepOnly state txid).txidList ∧
      (∀ t, t ∈ (compareTx bs localeCompare keepOnly state txid).txidList ↔
        t ∈ state.txidList ∧ t ≠ hashText txid) ∧
      (compareTx bs localeCompare keepOnly state txid).deletedTxs =
        state.deletedTxs ++ unlisted keepOnly state.txidList [txid] ∧
      (compareTx bs localeCompare keepOnly state txid).store =
        state.store.addTransactions
          ((unlisted keepOnly state.txidList [txid]).flatMap deleteTransactionOps) := by
  have hlower := lowerHex_hashText txid
  have hsign := hbs.nonneg_iff hcompare hkept.sorted hkept.lower hlower
  unfold MempoolDiff.compareTx
  dsimp only
  by_cases hlisted : hashText txid ∈ state.txidList
  · -- stored and listed: nothing to fetch, nothing to delete
    have hnonneg := hsign.mpr hlisted
    have hget := hbs.getElem?_eq hcompare hkept.sorted hkept.lower hlower hnonneg
    have hnone : unlisted keepOnly state.txidList [txid] = [] := by
      cases keepOnly <;> simp [unlisted, hlisted]
    have hmem : ∀ t, t ∈ state.txidList.eraseIdx
        (bs state.txidList (hashText txid) localeCompare).toNat ↔
          t ∈ state.txidList ∧ t ≠ hashText txid := fun t =>
      hcompare.mem_eraseIdx hkept.sorted hkept.lower hget
    rw [if_neg (Int.not_lt.mpr hnonneg), hnone, List.append_nil]
    exact ⟨⟨hkept.sorted.eraseIdx _, fun t ht => hkept.lower t ((hmem t).mp ht).1⟩, hmem, rfl, rfl⟩
  · -- the node no longer lists it
    have hneg : bs state.txidList (hashText txid) localeCompare < 0 := by
      rw [← Int.not_le, hsign]
      exact hlisted
    have hmem : ∀ t, t ∈ state.txidList ↔ t ∈ state.txidList ∧ t ≠ hashText txid := fun t =>
      ⟨fun ht => ⟨ht, fun heq => hlisted (heq ▸ ht)⟩, And.left⟩
    rw [if_pos hneg]
    cases keepOnly with
    | true =>
        have hnone : unlisted true state.txidList [txid] = [] := rfl
        rw [if_pos rfl, hnone, List.append_nil]
        exact ⟨hkept, hmem, rfl, rfl⟩
    | false =>
        have hone : unlisted false state.txidList [txid] = [txid] := by simp [unlisted, hlisted]
        rw [if_neg Bool.false_ne_true, hone, List.flatMap_singleton]
        exact ⟨hkept, hmem, rfl, rfl⟩

/-- **The walk over the stored transactions**: it takes the listed ones out of the list, and stages
the deletion of the others. -/
theorem Kept.walk (hcompare : Consistent localeCompare LowerHex)
    (hbs : Contract bs localeCompare LowerHex) (keepOnly : Bool) {txids : List Hash}
    (hnodup : txids.Nodup) {state : DiffState} (hkept : Kept localeCompare state.txidList) :
    Kept localeCompare (txids.foldl (MempoolDiff.compareTx bs localeCompare keepOnly) state).txidList ∧
      (∀ t, t ∈ (txids.foldl (MempoolDiff.compareTx bs localeCompare keepOnly) state).txidList ↔
        t ∈ state.txidList ∧ ∀ txid ∈ txids, t ≠ hashText txid) ∧
      (txids.foldl (MempoolDiff.compareTx bs localeCompare keepOnly) state).deletedTxs =
        state.deletedTxs ++ unlisted keepOnly state.txidList txids ∧
      (txids.foldl (MempoolDiff.compareTx bs localeCompare keepOnly) state).store =
        state.store.addTransactions
          ((unlisted keepOnly state.txidList txids).flatMap deleteTransactionOps) := by
  induction txids generalizing state with
  | nil =>
      have hnone : unlisted keepOnly state.txidList [] = [] := by
        rw [unlisted, List.filter_nil, ite_self]
      rw [hnone, List.append_nil]
      exact ⟨hkept, fun t => by simp, rfl, rfl⟩
  | cons txid txids ih =>
      obtain ⟨hfresh, hrest⟩ := List.nodup_cons.mp hnodup
      obtain ⟨hkept', hmem, hdeleted, hstore⟩ := hkept.compareTx hcompare hbs keepOnly txid
      obtain ⟨hkept'', hmems, hdeleteds, hstores⟩ := ih hrest hkept'
      rw [List.foldl_cons, unlisted_cons keepOnly hfresh hmem]
      refine ⟨hkept'', fun t => ?_, ?_, ?_⟩
      · rw [hmems, hmem, List.forall_mem_cons, and_assoc]
      · rw [hdeleteds, hdeleted, List.append_assoc]
      · rw [hstores, hstore, List.flatMap_append, addTransactions_append]

/-! ### What the diff leaves -/

theorem mem_scan_txEntry {db : Db} {txid : Hash} :
    txid ∈ scan db txEntry ↔ (db[Key.tx txid]?).isSome := by
  rw [mem_scan, Option.isSome_iff_exists]
  constructor
  · rintro ⟨key, value, hget, hentry⟩
    cases key <;> simp only [txEntry, reduceCtorEq, Option.some.injEq] at hentry
    subst hentry
    exact ⟨value, hget⟩
  · rintro ⟨value, hget⟩
    exact ⟨.tx txid, value, hget, rfl⟩

theorem nodup_scan_txEntry (db : Db) : (scan db txEntry).Nodup := by
  refine nodup_scan fun key value key' value' txid hentry hentry' => ?_
  cases key <;> simp only [txEntry, reduceCtorEq, Option.some.injEq] at hentry
  cases key' <;> simp only [txEntry, reduceCtorEq, Option.some.injEq] at hentry'
  rw [hentry, hentry']

/-- Deletions that are staged behind a transaction's own. -/
def HintKey : Key → Prop
  | .input _ _ | .inHint _ _ _ | .output _ _ _ | .outHint _ _ => True
  | _ => False

/-- A deletion by hints stages no write of a `T` key. -/
theorem deleteByHints_staged {deleteByHint : LevelUpStore → Hash → Nat × LevelUpStore}
    (hops : ∀ σ txid, ∃ ops : List (Key × WriteOp Value), (∀ entry ∈ ops, HintKey entry.1) ∧
      (deleteByHint σ txid).2 = σ.addTransactions ops) (txids : List Hash) {σ : LevelUpStore}
    (hopen : σ.Open) : (deleteByHints deleteByHint σ txids).2.Open ∧ ∀ t,
      (deleteByHints deleteByHint σ txids).2.staged (.tx t) = σ.staged (.tx t) := by
  induction txids generalizing σ with
  | nil => exact ⟨hopen, fun t => rfl⟩
  | cons txid txids ih =>
      obtain ⟨ops, hkeys, hstore⟩ := hops σ txid
      have hopen' : (deleteByHint σ txid).2.Open := hstore ▸ hopen.addTransactions ops
      obtain ⟨hlast, hstaged⟩ := ih hopen'
      refine ⟨hlast, fun t => (hstaged t).trans ?_⟩
      rw [hstore, hopen.staged_addTransactions_of_notMem fun op hmem => hkeys (.tx t, op) hmem]

theorem deleteInputsByHint_ops (σ : LevelUpStore) (txid : Hash) :
    ∃ ops : List (Key × WriteOp Value), (∀ entry ∈ ops, HintKey entry.1) ∧
      (deleteInputsByHint σ txid).2 = σ.addTransactions ops := by
  refine ⟨_, fun entry hmem => ?_, rfl⟩
  obtain ⟨outpoint, -, hentry⟩ := List.mem_flatMap.mp hmem
  simp only [deleteInputsByHintOps, List.mem_cons, List.not_mem_nil, or_false] at hentry
  rcases hentry with rfl | rfl <;> trivial

theorem deleteOutputsByHint_ops (σ : LevelUpStore) (txid : Hash) :
    ∃ ops : List (Key × WriteOp Value), (∀ entry ∈ ops, HintKey entry.1) ∧
      (deleteOutputsByHint σ txid).2 = σ.addTransactions ops := by
  refine ⟨_, fun entry hmem => ?_, rfl⟩
  obtain ⟨output, -, hentry⟩ := List.mem_flatMap.mp hmem
  simp only [deleteOutputsByHintOps, List.mem_cons, List.not_mem_nil, or_false] at hentry
  rcases hentry with rfl | rfl <;> trivial

theorem staged_deleteTransactionOps {σ : LevelUpStore} {txids : List Hash} (txid : Hash) :
    (σ.beginTransaction.addTransactions (txids.flatMap deleteTransactionOps)).staged (.tx txid) =
      some .del ↔ txid ∈ txids := by
  have hopen : σ.beginTransaction.Open := ⟨rfl, rfl⟩
  have hops : ∀ op, (Key.tx txid, op) ∈ txids.flatMap deleteTransactionOps ↔
      txid ∈ txids ∧ op = .del := by
    intro op
    simp only [List.mem_flatMap, deleteTransactionOps, List.mem_cons, List.not_mem_nil, or_false,
      Prod.mk.injEq, reduceCtorEq, false_and, false_or, Key.tx.injEq]
    constructor
    · rintro ⟨other, hmem, rfl, rfl⟩
      exact ⟨hmem, rfl⟩
    · rintro ⟨hmem, rfl⟩
      exact ⟨txid, hmem, rfl, rfl⟩
  by_cases hmem : txid ∈ txids
  · refine iff_of_true ?_ hmem
    exact hopen.staged_addTransactions_of_mem ((hops _).mpr ⟨hmem, rfl⟩) fun op h => ((hops op).mp h).2
  · refine iff_of_false ?_ hmem
    rw [hopen.staged_addTransactions_of_notMem fun op h => hmem ((hops op).mp h).1,
      beginTransaction_staged]
    exact fun h => nomatch h

/-- The prune of a pass, from the node's listing: the sorted list, diffed in a batch of its own. -/
def pruned (bs : List TxidText → TxidText → (TxidText → TxidText → Int) → Int)
    (localeCompare : TxidText → TxidText → Int) (σ : LevelUpStore) (listing : List TxidText)
    (keepOnly : Bool) : DiffState :=
  (deleteAndCompareTxsNotInList bs localeCompare σ.beginTransaction
    (insertSortedTxids bs localeCompare [] listing) keepOnly).2

/-- **The mempool list diff is exact.** The list left is the listing without the stored transactions,
sorted and without duplicates; the transactions staged for deletion are the stored ones that are not
listed, and none when the pass only keeps. -/
theorem mempool_diff_exact (hcompare : Consistent localeCompare LowerHex)
    (hbs : Contract bs localeCompare LowerHex) {listing : List TxidText}
    (hlisting : ∀ t ∈ listing, LowerHex t) (σ : LevelUpStore) (keepOnly : Bool) :
    Sorted localeCompare (pruned bs localeCompare σ listing keepOnly).txidList ∧
      (pruned bs localeCompare σ listing keepOnly).txidList.Nodup ∧
      (∀ t, t ∈ (pruned bs localeCompare σ listing keepOnly).txidList ↔
        t ∈ listing ∧ ∀ txid, (σ.db[Key.tx txid]?).isSome → t ≠ hashText txid) ∧
      ∀ txid, (pruned bs localeCompare σ listing keepOnly).store.staged (.tx txid) = some .del ↔
        keepOnly = false ∧ (σ.db[Key.tx txid]?).isSome ∧ hashText txid ∉ listing := by
  obtain ⟨hkept, hmem⟩ := Kept.insertSortedTxids hcompare hbs
    (⟨List.Pairwise.nil, fun t ht => nomatch ht⟩ : Kept localeCompare []) hlisting
  have hlist : ∀ t, t ∈ insertSortedTxids bs localeCompare [] listing ↔ t ∈ listing := by
    intro t
    rw [hmem]
    exact or_iff_right List.not_mem_nil
  obtain ⟨walked, hwalked⟩ : ∃ walked, (scan σ.db txEntry).foldl
      (compareTx bs localeCompare keepOnly)
        ⟨insertSortedTxids bs localeCompare [] listing, [], σ.beginTransaction⟩ = walked := ⟨_, rfl⟩
  have hpruned : pruned bs localeCompare σ listing keepOnly =
      { walked with store := (deleteOutputsByHints
          (deleteInputsByHints walked.store walked.deletedTxs).2 walked.deletedTxs).2 } := by
    rw [← hwalked]
    rfl
  obtain ⟨hkept', hmems, -, hstore⟩ := Kept.walk hcompare hbs keepOnly (nodup_scan_txEntry σ.db)
    (show Kept localeCompare (DiffState.mk (insertSortedTxids bs localeCompare [] listing) []
      σ.beginTransaction).txidList from hkept)
  rw [hwalked] at hkept' hmems hstore
  rw [hpruned]
  refine ⟨hkept'.sorted, hcompare.nodup hkept'.sorted hkept'.lower, fun t => ?_, fun txid => ?_⟩
  · refine (hmems t).trans (and_congr (hlist t) ?_)
    simp only [mem_scan_txEntry]
  · have hopen : walked.store.Open :=
      hstore ▸ Open.addTransactions (show σ.beginTransaction.Open from ⟨rfl, rfl⟩) _
    obtain ⟨hopen', hstaged⟩ := deleteByHints_staged deleteInputsByHint_ops walked.deletedTxs hopen
    obtain ⟨-, hstaged'⟩ := deleteByHints_staged deleteOutputsByHint_ops walked.deletedTxs hopen'
    have hsame := (hstaged' txid).trans (hstaged txid)
    refine (iff_of_eq (congrArg (· = some .del) hsame)).trans ?_
    rw [hstore, staged_deleteTransactionOps, unlisted]
    cases keepOnly with
    | true => simp
    | false => simp [mem_scan_txEntry, hlist]

end Diff

/-- Texts by the codes of their characters. -/
def codeCompare (a b : TxidText) : Int := if a = b then 0 else if a < b then -1 else 1

theorem codeCompare_consistent : Consistent codeCompare LowerHex where
  self a _ := if_pos rfl
  eq_of_zero a b _ _ hzero := by
    by_contra hne
    rw [codeCompare, if_neg hne] at hzero
    split_ifs at hzero
    omega
  swap a b _ _ := by
    unfold codeCompare
    rcases lt_trichotomy a b with hlt | rfl | hgt
    · simp [hlt.ne, hlt.ne', hlt, hlt.not_gt]
    · simp
    · simp [hgt.ne, hgt.ne', hgt, hgt.not_gt]
  trans a b c _ _ _ hab hbc := by
    have hlt : ∀ x y : TxidText, codeCompare x y < 0 ↔ x < y := by
      intro x y
      unfold codeCompare
      rcases lt_trichotomy x y with hlt | rfl | hgt
      · simp [hlt.ne, hlt]
      · simp
      · simp [hgt.ne', hgt.not_gt]
    rw [hlt] at hab hbc ⊢
    exact hab.trans hbc

/-- Two of three listed txids are one transaction; a stored third one is not listed. -/
theorem mempool_diff_exact_stored :
    (pruned searchFrom codeCompare
      (createDatabase ((∅ : Db).insert (.tx 5) (.txRecord 0 5)))
      [hashText 7, hashText 3, hashText 7] false).store.staged (.tx 5) = some .del := by
  have hlisting : ∀ t ∈ [hashText 7, hashText 3, hashText 7], LowerHex t := by
    intro t hmem
    simp only [List.mem_cons, List.not_mem_nil, or_false] at hmem
    rcases hmem with rfl | rfl | rfl <;> exact lowerHex_hashText _
  refine ((mempool_diff_exact codeCompare_consistent (searchFrom_contract codeCompare_consistent)
    hlisting _ false).2.2.2 5).mpr ⟨rfl, ?_, by decide⟩
  simp [createDatabase]

end UtxoTracker.MempoolDiff

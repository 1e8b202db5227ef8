import UtxoTracker.Concurrency.AddressReads
import UtxoTracker.Proof.Prune
import UtxoTracker.Safety.CommitLock
import UtxoTracker.Safety.Paging
/-!
# Address reads are atomic

A read that has its answer took every look at the stores of one instant, at which it was inside the
reader's section and no writer was. Only the counters and the cached node tip can move under it.
-/

namespace UtxoTracker

open KeyedStore LevelUpStore Resumption

/-! ### What the reads look at -/

/-- The confirmed records that address reads look at. -/
def Key.isAddressRead : Key → Bool
  | .output .. | .outHint .. | .scriptBlk _ | .lastBlockHash | .lastBlockHeight => true
  | _ => false

/-- Stores that no address read tells apart. -/
structure SameReads (stores stores' : Stores) : Prop where
  confirmed : ∀ k : Key, k.isAddressRead = true →
    stores'.confirmed.db[k]? = stores.confirmed.db[k]?
  mempool : stores'.mempool.db = stores.mempool.db

theorem SameReads.refl (stores : Stores) : SameReads stores stores := ⟨fun _ _ => rfl, rfl⟩

theorem SameReads.trans {stores stores' stores'' : Stores} (hfirst : SameReads stores stores')
    (hsecond : SameReads stores' stores'') : SameReads stores stores'' where
  confirmed := by
    intro k hread
    rw [hsecond.confirmed k hread, hfirst.confirmed k hread]
  mempool := hsecond.mempool.trans hfirst.mempool

section Looks

variable {stores stores' : Stores} (hsame : SameReads stores stores')
include hsame

theorem SameReads.getLastBlockHeight :
    stores'.confirmed.getLastBlockHeight = stores.confirmed.getLastBlockHeight := by
  unfold LevelUpStore.getLastBlockHeight
  rw [hsame.confirmed _ rfl]

theorem SameReads.getLastBlockHash :
    stores'.confirmed.getLastBlockHash = stores.confirmed.getLastBlockHash := by
  unfold LevelUpStore.getLastBlockHash
  rw [hsame.confirmed _ rfl]

theorem SameReads.getOutputScriptBlock (script : Hash) :
    stores'.confirmed.getOutputScriptBlock script = stores.confirmed.getOutputScriptBlock script := by
  unfold LevelUpStore.getOutputScriptBlock
  rw [hsame.confirmed _ rfl]

theorem SameReads.hasOutputForTx (txid : Hash) (outputIndex : Nat) :
    stores'.confirmed.hasOutputForTx txid outputIndex =
      stores.confirmed.hasOutputForTx txid outputIndex := by
  unfold LevelUpStore.hasOutputForTx
  rw [hsame.confirmed _ rfl]

theorem SameReads.getInput (txid : Hash) (outputIndex : Nat) :
    stores'.mempool.getInput txid outputIndex = stores.mempool.getInput txid outputIndex := by
  unfold LevelUpStore.getInput
  rw [hsame.mempool]

theorem SameReads.confirmedOutputs (script : Hash) (limit : Option Nat) (after : Option String)
    (maxOutputs : Option Nat) :
    stores'.confirmed.getOutputsScriptPubKey script limit after maxOutputs =
      stores.confirmed.getOutputsScriptPubKey script limit after maxOutputs := by
  have hscan : ∀ bound, scan stores'.confirmed.db (outputRowAccept script bound) =
      scan stores.confirmed.db (outputRowAccept script bound) := by
    intro bound
    apply scan_congr
    rintro k ⟨value, row, haccept⟩
    apply hsame.confirmed
    cases k with
    | output => rfl
    | _ => cases haccept
  unfold LevelUpStore.getOutputsScriptPubKey
  simp only [hscan]

theorem SameReads.mempoolOutputs (script : Hash) (limit : Option Nat) (after : Option String)
    (maxOutputs : Option Nat) :
    stores'.mempool.getOutputsScriptPubKey script limit after maxOutputs =
      stores.mempool.getOutputsScriptPubKey script limit after maxOutputs := by
  unfold LevelUpStore.getOutputsScriptPubKey
  rw [hsame.mempool]

end Looks

/-! ### Answers alike but for the tip -/

/-- The height and the hash that a snapshot names. -/
def ReadSnapshot.label (snapshot : ReadSnapshot) : Int × Option Hash :=
  (snapshot.committedHeight, snapshot.committedHash)

/-- The entries served for rows, each at the node tip cached when its turn came. -/
def servedAtTips (config : AddressConfig) (scriptPubKeyHex : String) (rows : List (OutputRow × Int)) :
    List Utxo :=
  rows.filterMap fun row => servableConfirmedUtxo config row.2 scriptPubKeyHex row.1

/-- The confirmed rows that the mempool does not spend. -/
def unspentRows (stores : Stores) (rows : List OutputRow) : List OutputRow :=
  rows.filter fun row => !(stores.mempool.getInput row.requireFullTxid row.vout).isSome

/-- The confirmed scan of a page. -/
def confirmedPage (config : AddressConfig) (stores : Stores) (script : Hash) (limit : Option Nat)
    (after : Option String) : Except QueryError (List OutputRow) :=
  if (limit.filter (0 < ·)).isSome then
    stores.confirmed.getOutputsScriptPubKey script (limit.filter (0 < ·)) after none
  else stores.confirmed.getOutputsScriptPubKey script none none (some config.maxAddressOutputs)

/-- The mempool scan of a page. -/
def mempoolPage (config : AddressConfig) (stores : Stores) (script : Hash) (limit : Option Nat)
    (after : Option String) : Except QueryError (List OutputRow) :=
  if limit.filter (0 < ·) = none ∨ after = none then
    stores.mempool.getOutputsScriptPubKey script none none (some config.maxAddressOutputs)
  else .ok []

/-- Both scans, over stores that stay as they are. -/
def pageRows (config : AddressConfig) (stores : Stores) (script : Hash) (limit : Option Nat)
    (after : Option String) : Except QueryError (List OutputRow × List OutputRow) := do
  let confirmed ← confirmedPage config stores script limit after
  let mempool ← mempoolPage config stores script limit after
  return (confirmed, mempool)

/-- An answer beside what the same call answers alone over the stores, the tip staying at `tip`. They
differ in the counters and in what the cached tip decides, at most: both report the stores' height and
hash and the same amounts, and both serve the confirmed rows of the page that the mempool does not
spend, the one each at some cached tip and the other all at `tip`, and the same mempool entries. -/
inductive SameButTip (config : AddressConfig) (stores : Stores) (cached : Int → Prop) (tip : Int) :
    AddressRead → AddressAnswer → AddressAnswer → Prop where
  | balanceFailed {script : Hash} (e : QueryError) :
      SameButTip config stores cached tip (.balanceInfo script) (.balanceInfo (.error e))
        (.balanceInfo (.error e))
  | balanceInfo {script : Hash} {a b : BalanceInfo} (hlabel : a.snapshot.label = b.snapshot.label)
      (hamounts : { a with snapshot := b.snapshot } = b) :
      SameButTip config stores cached tip (.balanceInfo script) (.balanceInfo (.ok a))
        (.balanceInfo (.ok b))
  | utxosFailed {script : Hash} {scriptPubKeyHex : String} {limit : Option Nat}
      {after : Option String} (e : QueryError) :
      SameButTip config stores cached tip (.utxosAddress script scriptPubKeyHex limit after)
        (.utxosAddress (.error e)) (.utxosAddress (.error e))
  | utxosAddress {script : Hash} {scriptPubKeyHex : String} {limit : Option Nat}
      {after : Option String} {a b : UtxosAnswer} {confirmed mempool : List OutputRow}
      {atTips : List (OutputRow × Int)} {served : List Utxo}
      (hlabel : a.snapshot.label = b.snapshot.label) (hcursor : a.nextCursor = b.nextCursor)
      (hrows : pageRows config stores script limit after = .ok (confirmed, mempool))
      (hunspent : atTips.map Prod.fst = unspentRows stores confirmed)
      (hcached : ∀ row ∈ atTips, cached row.2)
      (hresults : a.results = servedAtTips config scriptPubKeyHex atTips ++ served)
      (hresults' : b.results = servedAtTips config scriptPubKeyHex
        ((unspentRows stores confirmed).map fun row => (row, tip)) ++ served) :
      SameButTip config stores cached tip (.utxosAddress script scriptPubKeyHex limit after)
        (.utxosAddress (.ok a)) (.utxosAddress (.ok b))
  | firstSeenAt {script : Hash} {a b : FirstSeenAnswer} (hlabel : a.snapshot.label = b.snapshot.label)
      (hfirstSeen : a.firstSeen = b.firstSeen) :
      SameButTip config stores cached tip (.firstSeenAt script) (.firstSeenAt a) (.firstSeenAt b)

/-! ### What the reads answer over stores that read the same -/

section Programs

variable {config : AddressConfig} {stores : Stores} {cached : Int → Prop} (memory : Memory)

/-- The views a read may meet: they read the same, and the tip is one of the cached ones. -/
structure Meets (stores : Stores) (cached : Int → Prop) (v : View) : Prop where
  same : SameReads stores v.stores
  tip : cached v.memory.blockchainInfoLastBlock

theorem ensures_readCommittedSnapshot :
    readCommittedSnapshot.Ensures (Meets stores cached) fun snapshot =>
      snapshot.label = (stores.confirmed.getLastBlockHeight, stores.confirmed.getLastBlockHash) := by
  refine .observe_bind fun v hheight => .observe_bind fun v hhash => .observe_bind fun v _ => .pure ?_
  rw [ReadSnapshot.label, hheight.same.getLastBlockHeight, hhash.same.getLastBlockHash]

theorem ensures_close (snapshot : ReadSnapshot) :
    snapshot.close.Ensures (Meets stores cached) fun closed => closed.label = snapshot.label :=
  .observe_bind fun _ _ => .pure rfl

theorem steady_balanceOfConfirmed (rows : List OutputRow) (totals : BalanceTotals) :
    Steady (Meets stores cached) ⟨stores, memory⟩ (balanceOfConfirmed rows totals) := by
  induction rows generalizing totals with
  | nil => exact .pure _ _
  | cons row rest ih => exact .bind (.observe fun v hsame => hsame.same.getInput _ _) fun _ => ih _

theorem steady_balanceOfMempool (confirmedKeys : List OutPoint) (rows : List OutputRow)
    (totals : BalanceTotals) :
    Steady (Meets stores cached) ⟨stores, memory⟩ (balanceOfMempool confirmedKeys rows totals) := by
  induction rows generalizing totals with
  | nil => exact .pure _ _
  | cons row rest ih =>
      unfold balanceOfMempool
      split
      · exact ih _
      · exact .bind (.observe fun v hsame => hsame.same.getInput _ _) fun _ => ih _

/-- The totals of a balance over a view that stays as it is. -/
def balanceOver (config : AddressConfig) (v : View) (script : Hash) :
    Except QueryError BalanceTotals := do
  let confirmed ← v.stores.confirmed.getOutputsScriptPubKey script none none
    (some config.maxAddressOutputs)
  let mempool ← v.stores.mempool.getOutputsScriptPubKey script none none
    (some config.maxAddressOutputs)
  let totals := (balanceOfConfirmed confirmed ⟨0, 0, 0, 0, 0⟩).runAlone v
  return (balanceOfMempool (confirmed.map OutputRow.outPoint) mempool totals).runAlone v

theorem ensures_readBalanceInfo (script : Hash) :
    (readBalanceInfo config script).Ensures (Meets stores cached) fun answer =>
      ∃ snapshot : ReadSnapshot,
        snapshot.label =
          (stores.confirmed.getLastBlockHeight, stores.confirmed.getLastBlockHash) ∧
        answer = (balanceOver config ⟨stores, memory⟩ script).map (balanceInfoResult · snapshot) := by
  unfold balanceOver
  refine .bind ensures_readCommittedSnapshot fun snapshot hlabel => .observe_bind fun v hsame => ?_
  rw [hsame.same.confirmedOutputs]
  cases stores.confirmed.getOutputsScriptPubKey script none none (some config.maxAddressOutputs) with
  | error e => exact .pure ⟨snapshot, hlabel, rfl⟩
  | ok confirmed =>
      refine .observe_bind fun v hsame => ?_
      rw [hsame.same.mempoolOutputs]
      cases stores.mempool.getOutputsScriptPubKey script none none (some config.maxAddressOutputs) with
      | error e => exact .pure ⟨snapshot, hlabel, rfl⟩
      | ok mempool =>
          refine (steady_balanceOfConfirmed memory _ _).ensures_bind ?_
          refine (steady_balanceOfMempool memory _ _ _).ensures_bind ?_
          exact .bind (ensures_close _) fun closed hclosed => .pure ⟨closed, hclosed.trans hlabel, rfl⟩

theorem ensures_utxosOfConfirmed (scriptPubKeyHex : String) (rows : List OutputRow)
    (results : List Utxo) :
    (utxosOfConfirmed config scriptPubKeyHex rows results).Ensures (Meets stores cached) fun served =>
      ∃ atTips : List (OutputRow × Int), atTips.map Prod.fst = unspentRows stores rows ∧
        (∀ row ∈ atTips, cached row.2) ∧
        served = results ++ servedAtTips config scriptPubKeyHex atTips := by
  induction rows generalizing results with
  | nil => exact .pure ⟨[], rfl, by simp, by simp [servedAtTips]⟩
  | cons row rest ih =>
      refine .observe_bind fun v hsame => ?_
      rw [hsame.same.getInput]
      by_cases hspent : (stores.mempool.getInput row.requireFullTxid row.vout).isSome = true
      · rw [if_pos hspent]
        refine (ih results).mono fun served hserved => ?_
        rwa [unspentRows, List.filter_cons, hspent]
      · rw [if_neg hspent]
        refine .observe_bind fun v hmeets => (ih _).mono ?_
        rintro served ⟨atTips, hrows, hcached, rfl⟩
        refine ⟨(row, v.memory.blockchainInfoLastBlock) :: atTips, ?_,
          List.forall_mem_cons.mpr ⟨hmeets.tip, hcached⟩, ?_⟩
        · rw [unspentRows, List.filter_cons, if_pos (by simpa using hspent), List.map_cons, hrows,
            unspentRows]
        · rw [servedAtTips, servedAtTips, List.filterMap_cons, List.append_assoc]
          cases servableConfirmedUtxo config v.memory.blockchainInfoLastBlock scriptPubKeyHex row <;> rfl

theorem steady_servableMempoolUtxo (confirmedKeys : List OutPoint) (paged : Bool)
    (scriptPubKeyHex : String) (row : OutputRow) :
    Steady (Meets stores cached) ⟨stores, memory⟩
      (servableMempoolUtxo confirmedKeys paged scriptPubKeyHex row) := by
  unfold servableMempoolUtxo
  split
  · exact .pure _ _
  · refine .bind (.observe fun v hsame => ?_) fun confirmedElsewhere => ?_
    · rw [hsame.same.hasOutputForTx]
    · split
      · exact .pure _ _
      · exact .bind (.observe fun v hsame => hsame.same.getInput _ _) fun _ => .pure _ _

theorem steady_utxosOfMempool (confirmedKeys : List OutPoint) (paged : Bool)
    (scriptPubKeyHex : String) (rows : List OutputRow) (results : List Utxo) :
    Steady (Meets stores cached) ⟨stores, memory⟩
      (utxosOfMempool confirmedKeys paged scriptPubKeyHex rows results) := by
  induction rows generalizing results with
  | nil => exact .pure _ _
  | cons row rest ih => exact .bind (steady_servableMempoolUtxo memory _ _ _ _) fun _ => ih _

/-- The answers of a page over the stores, its confirmed entries each at some cached tip. -/
inductive UtxosOver (config : AddressConfig) (v : View) (cached : Int → Prop) (script : Hash)
    (scriptPubKeyHex : String) (limit : Option Nat) (after : Option String) :
    Except QueryError UtxosAnswer → Prop where
  | failed {e : QueryError} (hrows : pageRows config v.stores script limit after = .error e) :
      UtxosOver config v cached script scriptPubKeyHex limit after (.error e)
  | served {confirmed mempool : List OutputRow} {atTips : List (OutputRow × Int)}
      {snapshot : ReadSnapshot}
      (hrows : pageRows config v.stores script limit after = .ok (confirmed, mempool))
      (hlabel : snapshot.label =
        (v.stores.confirmed.getLastBlockHeight, v.stores.confirmed.getLastBlockHash))
      (htips : atTips.map Prod.fst = unspentRows v.stores confirmed)
      (hcached : ∀ row ∈ atTips, cached row.2) :
      UtxosOver config v cached script scriptPubKeyHex limit after (.ok {
        results := servedAtTips config scriptPubKeyHex atTips ++
          servedMempool v scriptPubKeyHex (confirmed.map OutputRow.outPoint)
            (limit.filter (0 < ·)).isSome mempool
        nextCursor := nextPageCursor confirmed (limit.filter (0 < ·))
        snapshot })

theorem ensures_readUtxosAddress (script : Hash) (scriptPubKeyHex : String) (limit : Option Nat)
    (after : Option String) :
    (readUtxosAddress config script scriptPubKeyHex limit after).Ensures (Meets stores cached)
      (UtxosOver config ⟨stores, memory⟩ cached script scriptPubKeyHex limit after) := by
  refine .bind ensures_readCommittedSnapshot fun snapshot hlabel => .observe_bind fun v hsame => ?_
  rw [hsame.same.confirmedOutputs, hsame.same.confirmedOutputs, ← confirmedPage]
  cases hconfirmed : confirmedPage config stores script limit after with
  | error e =>
      refine .pure (.failed ?_)
      simp only [pageRows, hconfirmed, bind, Except.bind]
  | ok confirmed =>
      refine .observe_bind fun v hsame => ?_
      rw [hsame.same.mempoolOutputs, ← mempoolPage]
      cases hmempool : mempoolPage config stores script limit after with
      | error e =>
          refine .pure (.failed ?_)
          simp only [pageRows, hconfirmed, hmempool, bind, Except.bind]
      | ok mempool =>
          refine .bind (ensures_utxosOfConfirmed _ _ _) ?_
          rintro results ⟨atTips, htips, hcached, rfl⟩
          refine (steady_utxosOfMempool memory _ _ _ _ _).ensures_bind ?_
          refine .bind (ensures_close _) fun closed hclosed => .pure ?_
          rw [runAlone_utxosOfMempool, List.nil_append]
          refine .served ?_ (hclosed.trans hlabel) htips hcached
          simp only [pageRows, hconfirmed, hmempool, bind, Except.bind, pure, Except.pure]

/-- Entries that are all at one tip. -/
theorem eq_map_of_tip {tip : Int} {atTips : List (OutputRow × Int)} {rows : List OutputRow}
    (hrows : atTips.map Prod.fst = rows) (htip : ∀ row ∈ atTips, row.2 = tip) :
    atTips = rows.map fun row => (row, tip) := by
  subst hrows
  rw [List.map_map]
  refine (List.map_id _).symm.trans (List.map_congr_left fun row hmem => ?_)
  exact Prod.ext rfl (htip row hmem)

theorem UtxosOver.sameButTip {v : View} {script : Hash} {scriptPubKeyHex : String}
    {limit : Option Nat} {after : Option String} {tip : Int} {a b : Except QueryError UtxosAnswer}
    (ha : UtxosOver config v cached script scriptPubKeyHex limit after a)
    (hb : UtxosOver config v (· = tip) script scriptPubKeyHex limit after b) :
    SameButTip config v.stores cached tip (.utxosAddress script scriptPubKeyHex limit after)
      (.utxosAddress a) (.utxosAddress b) := by
  cases ha with
  | failed hrows =>
      cases hb with
      | failed hrows' =>
          obtain rfl := Except.error.inj (hrows.symm.trans hrows')
          exact .utxosFailed _
      | served hrows' => cases hrows.symm.trans hrows'
  | served hrows hlabel htips hcached =>
      cases hb with
      | failed hrows' => cases hrows.symm.trans hrows'
      | served hrows' hlabel' htips' htip =>
          obtain ⟨rfl, rfl⟩ := Prod.mk.inj (Except.ok.inj (hrows.symm.trans hrows'))
          obtain rfl := eq_map_of_tip htips' htip
          exact .utxosAddress (hlabel.trans hlabel'.symm) rfl hrows htips hcached rfl rfl

theorem ensures_readFirstSeenAt (script : Hash) :
    (readFirstSeenAt script).Ensures (Meets stores cached) fun answer =>
      answer.snapshot.label =
        (stores.confirmed.getLastBlockHeight, stores.confirmed.getLastBlockHash) ∧
      answer.firstSeen = stores.confirmed.getOutputScriptBlock script := by
  refine .bind ensures_readCommittedSnapshot fun snapshot hlabel => .observe_bind fun v hsame => ?_
  exact .bind (ensures_close _) fun closed hclosed =>
    .pure ⟨hclosed.trans hlabel, hsame.same.getOutputScriptBlock script⟩

/-- **Every read** answers, over stores that read the same, as it would alone. -/
theorem ensures_program (call : AddressRead) :
    (call.program config).Ensures (Meets stores cached) fun answer =>
      SameButTip config stores cached memory.blockchainInfoLastBlock call answer
        ((call.program config).runAlone ⟨stores, memory⟩) := by
  have hself : Meets stores (· = memory.blockchainInfoLastBlock) (⟨stores, memory⟩ : View) :=
    ⟨.refl stores, rfl⟩
  cases call with
  | balanceInfo script =>
      have hread : (readBalanceInfo config script).Ensures
          (Meets stores (· = memory.blockchainInfoLastBlock)) _ :=
        ensures_readBalanceInfo memory script
      obtain ⟨snapshot', hlabel', halone⟩ := hread.runAlone hself
      refine .bind (ensures_readBalanceInfo memory script) fun answer hanswer => .pure ?_
      obtain ⟨snapshot, hlabel, rfl⟩ := hanswer
      rw [AddressRead.program, runAlone_bind, runAlone_pure, halone]
      cases balanceOver config ⟨stores, memory⟩ script with
      | error e => exact .balanceFailed e
      | ok totals => exact .balanceInfo (hlabel.trans hlabel'.symm) rfl
  | utxosAddress script scriptPubKeyHex limit after =>
      have hread : (readUtxosAddress config script scriptPubKeyHex limit after).Ensures
          (Meets stores (· = memory.blockchainInfoLastBlock)) _ :=
        ensures_readUtxosAddress memory script scriptPubKeyHex limit after
      have halone := hread.runAlone hself
      refine .bind (ensures_readUtxosAddress memory script scriptPubKeyHex limit after)
        fun answer hanswer => .pure ?_
      rw [AddressRead.program, runAlone_bind, runAlone_pure]
      exact hanswer.sameButTip halone
  | firstSeenAt script =>
      obtain ⟨hlabel', hfirstSeen'⟩ := (ensures_readFirstSeenAt script).runAlone hself
      refine .bind (ensures_readFirstSeenAt script) fun answer hanswer => .pure ?_
      rw [AddressRead.program, runAlone_bind, runAlone_pure]
      exact .firstSeenAt (hanswer.1.trans hlabel'.symm) (hanswer.2.trans hfirstSeen'.symm)

/-- Every read looks at least once. -/
theorem program_ne_done (call : AddressRead) (answer : AddressAnswer) :
    call.program config ≠ .done answer := by
  cases call <;> exact fun h => by cases h

end Programs

/-! ### What goes on outside the sections -/

/-- The aged-block cleanup deletes window records alone. -/
theorem cleanupAgedBlocks_addressRead {t t' : Tracker} (hcleanup : t.cleanupAgedBlocks = .ok t')
    {k : Key} (hread : k.isAddressRead = true) : t'.db.db[k]? = t.db.db[k]? := by
  unfold Tracker.cleanupAgedBlocks at hcleanup
  split at hcleanup
  · obtain rfl := Except.ok.inj hcleanup
    rfl
  · have hopen : t.db.beginTransaction.Open := open_beginTransaction
    have hpruned := wrote_foldl_prune t.toClean hopen rfl onlyDeletes_beginTransaction
    have hwrote := hpruned.trans (Wrote.addTransactions [(.pendingCleanup, .del)])
    obtain ⟨σ', hcommit, heffective, -⟩ := (hwrote.isOpen hopen).endTransaction
    simp only [bind, Except.bind, addTransactions, List.foldl_cons, List.foldl_nil]
      at hcommit hcleanup
    rw [hcommit] at hcleanup
    obtain rfl := Except.ok.inj hcleanup
    have hplain : ¬ (k = .pendingCleanup ∨
        ∃ hash ∈ t.toClean, k = .storedBlk hash ∨ k.undoBlock = some hash) := by
      rintro (rfl | ⟨hash, -, rfl | hundo⟩)
      · cases hread
      · cases hread
      · cases k with
        | outDel | hintDel | outBlk | blkScript | txBlockRecovery => cases hread
        | _ => cases hundo
    rw [heffective, effective_cleanup t.toClean hwrote, if_neg hplain]

theorem OutsideWrite.sameReads {stores stores' : Stores} (hwrite : OutsideWrite stores stores') :
    SameReads stores stores' := by
  cases hwrite with
  | stage hconfirmed hmempool => exact ⟨fun k _ => by rw [hconfirmed], hmempool⟩
  | cleanupAgedBlocks hstore hcleanup =>
      refine ⟨fun k hread => ?_, rfl⟩
      rw [← hstore]
      exact cleanupAgedBlocks_addressRead hcleanup hread
  | @writeThrough key op hkey =>
      refine ⟨fun k hread => ?_, rfl⟩
      have hne : key ≠ k := by
        rintro rfl
        rcases hkey with rfl | rfl <;> cases hread
      exact (getElem?_applyOp _ _ _ _).trans (if_neg hne)

/-! ### The run -/

section Run

variable {τ : Type*} [DecidableEq τ] {config : AddressConfig} {calls : τ → AddressRead}
  {s s' : ReadsState τ} {i : τ}

/-- A node tip cached between two instants of a run. -/
def CachedBetween (s₀ s : ReadsState τ) (tip : Int) : Prop :=
  ∃ s₁, Relation.ReflTransGen ReadsStep s₀ s₁ ∧ Relation.ReflTransGen ReadsStep s₁ s ∧
    s₁.view.memory.blockchainInfoLastBlock = tip

theorem CachedBetween.tail {s₀ : ReadsState τ} {tip : Int} (hcached : CachedBetween s₀ s tip)
    (hstep : ReadsStep s s') : CachedBetween s₀ s' tip := by
  obtain ⟨s₁, hbefore, hafter, htip⟩ := hcached
  exact ⟨s₁, hbefore, hafter.tail hstep, htip⟩

/-- Since an instant of the run at which the call was inside, every look of it met stores that read as
they did then; while it is inside, they still do. -/
def Observed (config : AddressConfig) (calls : τ → AddressRead) (s : ReadsState τ) (i : τ) : Prop :=
  ∃ s₀ : ReadsState τ, ReadsReachable config calls s₀ ∧ Relation.ReflTransGen ReadsStep s₀ s ∧
    s₀.locks.stage i = .reading ∧
    (∃ seen : List View, (∀ v ∈ seen, Meets s₀.view.stores (CachedBetween s₀ s) v) ∧
      s.left i = ((calls i).program config).advance seen) ∧
    (s.locks.stage i = .reading → SameReads s₀.view.stores s.view.stores)

/-- A call that has not entered has its whole program left; a read that has entered has seen one
instant. -/
structure ReadsInv (config : AddressConfig) (calls : τ → AddressRead) (s : ReadsState τ) : Prop where
  reach : ReadsReachable config calls s
  locks : LockInv s.locks
  before : ∀ i, s.locks.stage i ≠ .reading → (∀ outcome, s.locks.stage i ≠ .finished outcome) →
    s.left i = (calls i).program config
  reading : ∀ i, s.locks.stage i = .reading → Observed config calls s i
  finished : ∀ i outcome, s.locks.stage i = .finished outcome →
    s.left i = (calls i).program config ∨ Observed config calls s i

theorem Meets.tail {s₀ : ReadsState τ} {v : View}
    (hmeets : Meets s₀.view.stores (CachedBetween s₀ s) v) (hstep : ReadsStep s s') :
    Meets s₀.view.stores (CachedBetween s₀ s') v := ⟨hmeets.same, hmeets.tip.tail hstep⟩

/-- A step that leaves a call's looks and the records it reads alone. -/
theorem Observed.step (hobserved : Observed config calls s i) (hstep : ReadsStep s s')
    (hleft : s'.left i = s.left i)
    (hstores : s'.locks.stage i = .reading →
      s.locks.stage i = .reading ∧ SameReads s.view.stores s'.view.stores) :
    Observed config calls s' i := by
  obtain ⟨s₀, hreach, hrun, hstage, ⟨seen, hseen, hadvance⟩, hsame⟩ := hobserved
  refine ⟨s₀, hreach, hrun.tail hstep, hstage,
    ⟨seen, fun v hv => (hseen v hv).tail hstep, hleft.trans hadvance⟩, ?_⟩
  intro hreading
  obtain ⟨hbefore, hstay⟩ := hstores hreading
  exact (hsame hbefore).trans hstay

/-- A look of the call itself. -/
theorem Observed.look {next : View → Read AddressAnswer} (hobserved : Observed config calls s i)
    (hstage : s.locks.stage i = .reading) (hleft : s.left i = .await next) :
    Observed config calls { s with left := Function.update s.left i (next s.view) } i := by
  obtain ⟨s₀, hreach, hrun, hstage₀, ⟨seen, hseen, hadvance⟩, hsame⟩ := hobserved
  have hstep : ReadsStep s { s with left := Function.update s.left i (next s.view) } :=
    .look hstage hleft
  refine ⟨s₀, hreach, hrun.tail hstep, hstage₀, ⟨seen ++ [s.view], ?_, ?_⟩,
    fun _ => hsame hstage⟩
  · intro v hv
    rcases List.mem_append.mp hv with hin | hin
    · exact (hseen v hin).tail hstep
    · obtain rfl := List.mem_singleton.mp hin
      exact ⟨hsame hstage, s, hrun, .single hstep, rfl⟩
  · rw [advance_append, ← hadvance, hleft, advance_await, advance_nil]
    exact Function.update_self ..

theorem ReadsStep.locks (hstep : ReadsStep s s') (hinv : LockInv s.locks) : LockInv s'.locks := by
  cases hstep with
  | lock hstep => exact hinv.step hstep
  | look | commit | outside | memory => exact hinv

/-- A step that moves no call and leaves every record that a reader reads alone. -/
theorem ReadsInv.view (hinv : ReadsInv config calls s) {view : View}
    (hstep : ReadsStep s { s with view })
    (hview : ∀ i, s.locks.stage i = .reading → SameReads s.view.stores view.stores) :
    ReadsInv config calls { s with view } where
  reach := hinv.reach.next hstep
  locks := hinv.locks
  before := hinv.before
  reading := by
    intro i hreading
    exact (hinv.reading i hreading).step hstep rfl fun _ => ⟨hreading, hview i hreading⟩
  finished := by
    intro i outcome hfinished
    rcases hinv.finished i outcome hfinished with hleft | hobserved
    · exact Or.inl hleft
    · refine Or.inr (hobserved.step hstep rfl fun hreading => ?_)
      cases hfinished.symm.trans hreading

theorem ReadsInv.lock (hinv : ReadsInv config calls s) {locks : LockState τ}
    (hlock : LockStep s.locks locks) (hstep : ReadsStep s { s with locks }) :
    ReadsInv config calls { s with locks } where
  reach := hinv.reach.next hstep
  locks := hinv.locks.step hlock
  before := by
    intro i hnotReading hnotFinished
    apply hinv.before i
    · intro hreading
      rcases hlock.reading hreading with h | ⟨outcome, h⟩
      · exact hnotReading h
      · exact hnotFinished outcome h
    · intro outcome hfinished
      exact hnotFinished outcome (hlock.finished hfinished)
  reading := by
    intro i hreading
    by_cases hbefore : s.locks.stage i = .reading
    · exact (hinv.reading i hbefore).step hstep rfl fun _ => ⟨hbefore, .refl _⟩
    · -- The call enters: this is its instant.
      have hleft : s.left i = (calls i).program config := by
        refine hinv.before i hbefore fun outcome hfinished => ?_
        cases (hlock.finished hfinished).symm.trans hreading
      exact ⟨_, hinv.reach.next hstep, .refl, hreading,
        ⟨[], by simp, hleft.trans (advance_nil _).symm⟩, fun _ => .refl _⟩
  finished := by
    intro i outcome hfinished
    have hout : ∀ hobserved : Observed config calls s i, Observed config calls { s with locks } i :=
      fun hobserved => hobserved.step hstep rfl fun hreading => by
        cases hfinished.symm.trans hreading
    by_cases hbefore : s.locks.stage i = .reading
    · exact Or.inr (hout (hinv.reading i hbefore))
    · by_cases hwas : ∃ outcome, s.locks.stage i = .finished outcome
      · obtain ⟨outcome, hwas⟩ := hwas
        exact (hinv.finished i outcome hwas).imp_right hout
      · exact Or.inl (hinv.before i hbefore fun outcome hwas' => hwas ⟨outcome, hwas'⟩)

theorem ReadsInv.look (hinv : ReadsInv config calls s) {next : View → Read AddressAnswer}
    (hstage : s.locks.stage i = .reading) (hleft : s.left i = .await next) :
    ReadsInv config calls { s with left := Function.update s.left i (next s.view) } := by
  have hstep : ReadsStep s { s with left := Function.update s.left i (next s.view) } :=
    .look hstage hleft
  have hother : ∀ j, j ≠ i → Function.update s.left i (next s.view) j = s.left j :=
    fun j hne => Function.update_of_ne hne _ _
  refine ⟨hinv.reach.next hstep, hinv.locks, ?_, ?_, ?_⟩
  · intro j hnotReading hnotFinished
    have hne : j ≠ i := by
      rintro rfl
      exact hnotReading hstage
    exact (hother j hne).trans (hinv.before j hnotReading hnotFinished)
  · intro j hreading
    by_cases hne : j = i
    · subst hne
      exact (hinv.reading j hreading).look hstage hleft
    · exact (hinv.reading j hreading).step hstep (hother j hne) fun _ => ⟨hreading, .refl _⟩
  · intro j outcome hfinished
    have hne : j ≠ i := by
      rintro rfl
      cases hfinished.symm.trans hstage
    rcases hinv.finished j outcome hfinished with hbefore | hobserved
    · exact Or.inl ((hother j hne).trans hbefore)
    · refine Or.inr (hobserved.step hstep (hother j hne) fun hreading => ?_)
      cases hfinished.symm.trans hreading

/-- **The step lemma.** -/
theorem ReadsInv.step (hinv : ReadsInv config calls s) (hstep : ReadsStep s s') :
    ReadsInv config calls s' := by
  have hcopy := hstep
  cases hstep with
  | lock hlock hanswered => exact hinv.lock hlock hcopy
  | look hstage hleft => exact hinv.look hstage hleft
  | @commit w stores hstage hwrite =>
      refine hinv.view hcopy fun i hreading => ?_
      -- A committing writer is alone.
      have hpos := hinv.locks.readers_pos hreading
      have hzero := hinv.locks.alone w hstage
      omega
  | outside hwrite => exact hinv.view hcopy fun _ _ => hwrite.sameReads
  | memory memory => exact hinv.view hcopy fun _ _ => .refl _

/-- **The run lemma.** -/
theorem ReadsInv.reachable (hreach : ReadsReachable config calls s) : ReadsInv config calls s := by
  induction hreach with
  | @start s hinit =>
      obtain ⟨hlocks, hleft⟩ := hinit
      have hidle : ∀ i, s.locks.stage i = .idle := fun i => by rw [hlocks]; rfl
      refine ⟨.start ⟨hlocks, hleft⟩, hlocks ▸ lockInv_initial, fun i _ _ => ?_, fun i h => ?_,
        fun i _ h => ?_⟩
      · rw [hleft]
      · cases (hidle i).symm.trans h
      · cases (hidle i).symm.trans h
  | next _ hstep ih => exact ih.step hstep

/-- The answer of a call is that of an instant of the run, at which it was inside and no writer was
committing: the one it gives running alone on the stores of that instant, under any counters and any
tip, but for the counters and for the tips cached since that instant. -/
def AtomicAnswer (config : AddressConfig) (calls : τ → AddressRead) (s : ReadsState τ) (i : τ)
    (answer : AddressAnswer) : Prop :=
  ∃ s₀ : ReadsState τ, ReadsReachable config calls s₀ ∧ Relation.ReflTransGen ReadsStep s₀ s ∧
    s₀.locks.stage i = .reading ∧ (∀ w, s₀.locks.stage w ≠ .committing) ∧
    ∀ memory : Memory, SameButTip config s₀.view.stores (CachedBetween s₀ s)
      memory.blockchainInfoLastBlock (calls i) answer
      (((calls i).program config).runAlone ⟨s₀.view.stores, memory⟩)

/-- **Address reads are atomic.** Whatever the calls, in every run, every answer of a read is one of a
single instant. -/
theorem address_reads_atomic (hreach : ReadsReachable config calls s) (i : τ)
    (answer : AddressAnswer) (hdone : s.left i = .done answer) :
    AtomicAnswer config calls s i answer := by
  have hinv := ReadsInv.reachable hreach
  have hobserved : Observed config calls s i := by
    have hbegun : s.left i ≠ (calls i).program config := by
      rw [hdone]
      exact fun h => program_ne_done _ _ h.symm
    by_cases hreading : s.locks.stage i = .reading
    · exact hinv.reading i hreading
    · by_cases hfinished : ∃ outcome, s.locks.stage i = .finished outcome
      · obtain ⟨outcome, hfinished⟩ := hfinished
        exact (hinv.finished i outcome hfinished).resolve_left hbegun
      · exact absurd (hinv.before i hreading fun o h => hfinished ⟨o, h⟩) hbegun
  obtain ⟨s₀, hreach₀, hrun, hstage, ⟨seen, hseen, hadvance⟩, -⟩ := hobserved
  refine ⟨s₀, hreach₀, hrun, hstage, fun w hcommitting => ?_, fun memory => ?_⟩
  · have hinv₀ := (ReadsInv.reachable hreach₀).locks
    have hpos := hinv₀.readers_pos hstage
    have hzero := hinv₀.alone w hcommitting
    omega
  · exact (ensures_program memory (calls i)).of_advance hseen (hadvance.symm.trans hdone)

/-- A page and a balance of one script, read at once. -/
def pageAndBalance : Fin 2 → AddressRead
  | 0 => .utxosAddress 7 "76a9" none none
  | 1 => .balanceInfo 7

/-- The cached tip moves under both reads. -/
theorem address_reads_atomic_movingTip :
    ∃ (s : ReadsState (Fin 2)) (utxos balance : AddressAnswer),
      ReadsReachable ⟨0, 5⟩ pageAndBalance s ∧ s.left 0 = .done utxos ∧ s.left 1 = .done balance ∧
      AtomicAnswer ⟨0, 5⟩ pageAndBalance s 0 utxos ∧
      AtomicAnswer ⟨0, 5⟩ pageAndBalance s 1 balance := by
  have hstart : ReadsReachable ⟨0, 5⟩ pageAndBalance
      { locks := LockState.initial
        view := twoOutputs
        left := fun i => (pageAndBalance i).program ⟨0, 5⟩ } := .start ⟨rfl, rfl⟩
  have henter := hstart.next (.lock (.callRead (i := 0) rfl) (by
    intro i hreading
    cases hreading))
  have hboth := henter.next (.lock (.callRead (i := 1) rfl) (by
    refine Fin.forall_fin_two.mpr ⟨?_, ?_⟩ <;>
    · intro _ hfinished
      cases hfinished))
  -- The snapshots.
  have hheight := (hboth.next (.look (i := 0) rfl rfl)).next (.look (i := 1) rfl rfl)
  have hhash := (hheight.next (.look (i := 0) rfl rfl)).next (.look (i := 1) rfl rfl)
  have hcounters := (hhash.next (.look (i := 0) rfl rfl)).next (.look (i := 1) rfl rfl)
  -- The two scans, and the verdict on the confirmed output.
  have hconfirmed := (hcounters.next (.look (i := 0) rfl rfl)).next (.look (i := 1) rfl rfl)
  have hmempool := (hconfirmed.next (.look (i := 0) rfl rfl)).next (.look (i := 1) rfl rfl)
  have hverdict := (hmempool.next (.look (i := 0) rfl rfl)).next (.look (i := 1) rfl rfl)
  have hmoved := hverdict.next (.memory ⟨4, 0, 1, true⟩)
  have htip := hmoved.next (.look (i := 0) rfl rfl)
  -- The verdict on the mempool output, and the end of both.
  have hpending := (htip.next (.look (i := 0) rfl rfl)).next (.look (i := 1) rfl rfl)
  have hbalance := (hpending.next (.look (i := 0) rfl rfl)).next (.look (i := 1) rfl rfl)
  have hutxos := hbalance.next (.look (i := 0) rfl rfl)
  exact ⟨_, _, _, hutxos, rfl, rfl, address_reads_atomic hutxos 0 _ rfl,
    address_reads_atomic hutxos 1 _ rfl⟩

end Run

end UtxoTracker

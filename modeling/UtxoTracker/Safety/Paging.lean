import UtxoTracker.Tracker.AddressQueries
/-!
# A page walk lists what one unpaged read lists

Over stores and a cached tip that stay as they are, the pages of `getUtxosAddress`, followed from no
cursor to the last, hold the entries of the unpaged answer. A page is a stretch of the confirmed rows
in key order, filtered after the scan; the mempool rows come with the first page.
-/

namespace UtxoTracker

open KeyedStore LevelUpStore Resumption

/-! ### The rows of a script, in key order -/

/-- The `O` records as the store's writers write them: the index fits its four bytes, and the value
names the txid of its key, or none. -/
def OutputsWellFormed (db : Db) : Prop :=
  ∀ script txid vout value, db[Key.output script txid vout]? = some value →
    vout ≤ 0xFFFFFFFF ∧ ∃ record, value = .output record ∧ (record.t = txid ∨ record.t = 0)

/-- `H` says that an output is there, under whichever script. -/
def HintsExact (db : Db) : Prop :=
  ∀ txid vout, (db[Key.outHint txid vout]?).isSome ↔
    ∃ script, (db[Key.output script txid vout]?).isSome

/-- An outpoint of both stores is filed under one script in both: its txid fixes its outputs. -/
def SameScripts (stores : Stores) : Prop :=
  ∀ script script' txid vout, (stores.mempool.db[Key.output script txid vout]?).isSome →
    (stores.confirmed.db[Key.output script' txid vout]?).isSome → script' = script

section Rows

variable {σ : LevelUpStore} {script : Hash}

/-- Every output of the script. -/
def rowsOf (σ : LevelUpStore) (script : Hash) : List OutputRow :=
  scan σ.db (outputRowAccept script none)

theorem length_rowsOf_le : (rowsOf σ script).length ≤ σ.db.size := by
  rw [rowsOf, scan, ← Std.ExtTreeMap.length_toList]
  exact List.length_filterMap_le _ _

/-- The key a row was read at. -/
def OutputRow.scanKey (script : Hash) (row : OutputRow) : Key := .output script row.txid row.vout

theorem outputRowAccept_scanKey {key : Key} {value : Value} {row : OutputRow}
    (haccept : outputRowAccept script none key value = some row) : key = row.scanKey script := by
  cases key with
  | output s txid vout =>
      simp only [outputRowAccept, Option.not_mem_none, false_implies, implies_true, and_true,
        Option.ite_none_right_eq_some, Option.map_eq_some_iff] at haccept
      obtain ⟨rfl, record, -, rfl⟩ := haccept
      rfl
  | _ => cases haccept

/-- The rows come in strictly ascending key order. -/
theorem rowsOf_ordered :
    (rowsOf σ script).Pairwise fun a b => compare (a.scanKey script) (b.scanKey script) = .lt := by
  rw [rowsOf, scan, List.pairwise_filterMap]
  refine Std.ExtTreeMap.ordered_keys_toList.imp fun {a b} hlt row hrow row' hrow' => ?_
  rw [← outputRowAccept_scanKey hrow, ← outputRowAccept_scanKey hrow']
  exact hlt

/-- A scan from a cursor skips the rows up to it. -/
theorem scan_after (cursor : Hash × Nat) :
    scan σ.db (outputRowAccept script (some cursor)) =
      (rowsOf σ script).filter fun row =>
        compare (Key.output script cursor.1 cursor.2) (row.scanKey script) = .lt := by
  rw [rowsOf, scan, scan, List.filter_filterMap]
  refine List.filterMap_congr fun entry _ => ?_
  obtain ⟨key, value⟩ := entry
  cases key with
  | output s txid vout =>
      simp only [outputRowAccept, Option.mem_some_iff, forall_eq', Option.not_mem_none,
        false_implies, implies_true, and_true]
      by_cases hscript : s = script
      · subst hscript
        by_cases hlt : compare (Key.output s cursor.1 cursor.2) (Key.output s txid vout) = .lt
        · cases decodeOutput value <;>
            simp [OutputRow.scanKey, OutputRow.ofRecord, Option.filter, hlt]
        · cases decodeOutput value <;>
            simp [OutputRow.scanKey, OutputRow.ofRecord, Option.filter, hlt]
      · simp [hscript]
  | _ => rfl

/-- After the last row of a stretch come exactly the rows behind it. -/
theorem filter_after {before rest : List OutputRow} {row : OutputRow}
    (hordered : (before ++ row :: rest).Pairwise fun a b =>
      compare (a.scanKey script) (b.scanKey script) = .lt) :
    ((before ++ row :: rest).filter fun other =>
      compare (row.scanKey script) (other.scanKey script) = .lt) = rest := by
  rw [List.pairwise_append, List.pairwise_cons] at hordered
  obtain ⟨-, ⟨hrest, -⟩, hbefore⟩ := hordered
  have hirrefl : compare (row.scanKey script) (row.scanKey script) ≠ .lt := by
    rw [Std.compare_self]
    simp
  rw [List.filter_append, List.filter_cons, if_neg (by simp),
    List.filter_eq_nil_iff.mpr, List.nil_append, List.filter_eq_self.mpr]
  · intro other hother
    exact decide_eq_true (hrest other hother)
  · intro other hother
    have hlt := hbefore other hother row List.mem_cons_self
    rw [decide_eq_true_iff, Std.OrientedOrd.eq_swap, hlt]
    simp

theorem mem_rowsOf {row : OutputRow} :
    row ∈ rowsOf σ script ↔ ∃ record, σ.db[row.scanKey script]? = some (.output record) ∧
      row = .ofRecord row.txid row.vout record := by
  rw [rowsOf, mem_scan]
  constructor
  · rintro ⟨key, value, hget, haccept⟩
    obtain rfl := outputRowAccept_scanKey haccept
    simp only [OutputRow.scanKey, outputRowAccept, Option.not_mem_none, false_implies, implies_true,
      and_true, Option.ite_none_right_eq_some, Option.map_eq_some_iff] at haccept
    obtain ⟨-, record, hdecode, hrow⟩ := haccept
    cases value with
    | output known =>
        obtain rfl : known = record := by simpa [decodeOutput] using hdecode
        exact ⟨known, hget, hrow.symm⟩
    | _ => cases hdecode
  · rintro ⟨record, hget, hrow⟩
    refine ⟨_, _, hget, ?_⟩
    simp only [OutputRow.scanKey, outputRowAccept, Option.not_mem_none, false_implies, implies_true,
      and_true, if_true, decodeOutput, Option.map_some]
    exact congrArg some hrow.symm

variable {row : OutputRow} (hwell : OutputsWellFormed σ.db)
include hwell

theorem OutputsWellFormed.vout_le (hrow : row ∈ rowsOf σ script) : row.vout ≤ 0xFFFFFFFF := by
  obtain ⟨record, hget, -⟩ := mem_rowsOf.mp hrow
  exact (hwell _ _ _ _ hget).1

/-- The served outpoint is the key's. -/
theorem OutputsWellFormed.outPoint (hrow : row ∈ rowsOf σ script) :
    row.requireFullTxid = row.txid := by
  obtain ⟨record, hget, hrow⟩ := mem_rowsOf.mp hrow
  obtain ⟨-, known, hvalue, ht⟩ := hwell _ _ _ _ hget
  obtain rfl : record = known := by simpa using hvalue
  have hfull : row.fullTxid = if record.t = 0 then none else some record.t :=
    (congrArg OutputRow.fullTxid hrow).trans rfl
  rw [OutputRow.requireFullTxid, hfull]
  rcases ht with ht | ht
  · split
    · rfl
    · exact ht
  · simp [ht]

/-- No outpoint is listed twice. -/
theorem OutputsWellFormed.nodup : ((rowsOf σ script).map OutputRow.outPoint).Nodup := by
  rw [List.Nodup, List.pairwise_map]
  refine rowsOf_ordered.imp_of_mem fun {a b} ha hb hlt heq => ?_
  have htxid : a.txid = b.txid := by
    rw [← hwell.outPoint ha, ← hwell.outPoint hb]
    exact congrArg OutPoint.txid heq
  have hvout : a.vout = b.vout := congrArg OutPoint.index heq
  rw [OutputRow.scanKey, OutputRow.scanKey, htxid, hvout, Std.compare_self] at hlt
  cases hlt

end Rows

/-! ### What one page holds -/

section Page

variable {config : AddressConfig} {v : View} {scriptPubKeyHex : String}

/-- The entries served for a stretch of confirmed rows. -/
def servedConfirmed (config : AddressConfig) (v : View) (scriptPubKeyHex : String)
    (rows : List OutputRow) : List Utxo :=
  rows.filterMap fun row =>
    if (v.stores.mempool.getInput row.requireFullTxid row.vout).isSome then none
    else servableConfirmedUtxo config v.memory.blockchainInfoLastBlock scriptPubKeyHex row

/-- The entries served for the mempool rows. -/
def servedMempool (v : View) (scriptPubKeyHex : String) (confirmedKeys : List OutPoint) (paged : Bool)
    (rows : List OutputRow) : List Utxo :=
  rows.filterMap fun row =>
    if row.outPoint ∈ confirmedKeys ∨
        (paged ∧ v.stores.confirmed.hasOutputForTx row.requireFullTxid row.vout) ∨
        (v.stores.mempool.getInput row.requireFullTxid row.vout).isSome then none
    else some (mempoolUtxo scriptPubKeyHex row)

theorem runAlone_utxosOfConfirmed (rows : List OutputRow) (results : List Utxo) :
    (utxosOfConfirmed config scriptPubKeyHex rows results).runAlone v =
      results ++ servedConfirmed config v scriptPubKeyHex rows := by
  induction rows generalizing results with
  | nil => simp [utxosOfConfirmed, servedConfirmed]
  | cons row rest ih =>
      rw [utxosOfConfirmed, runAlone_bind, runAlone_observe, servedConfirmed, List.filterMap_cons]
      split
      · rw [ih]
        rfl
      · rw [runAlone_bind, runAlone_observe, ih, List.append_assoc]
        cases servableConfirmedUtxo config v.memory.blockchainInfoLastBlock scriptPubKeyHex row <;> rfl

theorem runAlone_servableMempoolUtxo (confirmedKeys : List OutPoint) (paged : Bool)
    (row : OutputRow) :
    (servableMempoolUtxo confirmedKeys paged scriptPubKeyHex row).runAlone v =
      servedMempool v scriptPubKeyHex confirmedKeys paged [row] := by
  unfold servableMempoolUtxo servedMempool
  by_cases hkey : row.outPoint ∈ confirmedKeys
  · simp [hkey]
  cases paged with
  | false =>
      by_cases hspent : (v.stores.mempool.getInput row.requireFullTxid row.vout).isSome <;>
        simp [hkey, hspent]
  | true =>
      by_cases helsewhere : v.stores.confirmed.hasOutputForTx row.requireFullTxid row.vout = true <;>
        by_cases hspent : (v.stores.mempool.getInput row.requireFullTxid row.vout).isSome <;>
        simp [hkey, helsewhere, hspent]

theorem runAlone_utxosOfMempool (confirmedKeys : List OutPoint) (paged : Bool)
    (rows : List OutputRow) (results : List Utxo) :
    (utxosOfMempool confirmedKeys paged scriptPubKeyHex rows results).runAlone v =
      results ++ servedMempool v scriptPubKeyHex confirmedKeys paged rows := by
  induction rows generalizing results with
  | nil => simp [utxosOfMempool, servedMempool]
  | cons row rest ih =>
      rw [utxosOfMempool, runAlone_bind, runAlone_servableMempoolUtxo, ih, List.append_assoc]
      refine congrArg (results ++ ·) ?_
      rw [servedMempool, servedMempool, servedMempool, ← List.filterMap_append,
        List.singleton_append]

/-- One page, or the unpaged answer, over stores that stay as they are. -/
def getUtxos (config : AddressConfig) (v : View) (script : Hash) (scriptPubKeyHex : String)
    (limit : Option Nat) (after : Option String) : Except QueryError UtxosAnswer :=
  (readUtxosAddress config script scriptPubKeyHex limit after).runAlone v

variable {script : Hash}

/-- What is served once both scans have answered. -/
theorem getUtxos_eq {limit : Option Nat} {after : Option String}
    {confirmedRows mempoolRows : List OutputRow}
    (hconfirmed : (if (limit.filter (0 < ·)).isSome then
        v.stores.confirmed.getOutputsScriptPubKey script (limit.filter (0 < ·)) after none
      else v.stores.confirmed.getOutputsScriptPubKey script none none
        (some config.maxAddressOutputs)) = .ok confirmedRows)
    (hmempool : (if limit.filter (0 < ·) = none ∨ after = none then
        v.stores.mempool.getOutputsScriptPubKey script none none (some config.maxAddressOutputs)
      else .ok []) = .ok mempoolRows) :
    ∃ answer, getUtxos config v script scriptPubKeyHex limit after = .ok answer ∧
      answer.results = servedConfirmed config v scriptPubKeyHex confirmedRows ++
        servedMempool v scriptPubKeyHex (confirmedRows.map OutputRow.outPoint)
          (limit.filter (0 < ·)).isSome mempoolRows ∧
      answer.nextCursor = nextPageCursor confirmedRows (limit.filter (0 < ·)) := by
  refine ⟨{
    results := _
    nextCursor := nextPageCursor confirmedRows (limit.filter (0 < ·))
    snapshot := (readCommittedSnapshot.runAlone v).close.runAlone v }, ?_, rfl, rfl⟩
  unfold getUtxos readUtxosAddress
  rw [runAlone_bind, runAlone_bind, runAlone_observe, hconfirmed]
  dsimp only
  rw [runAlone_bind, runAlone_observe, hmempool]
  dsimp only
  rw [runAlone_bind, runAlone_utxosOfConfirmed, runAlone_bind, runAlone_utxosOfMempool,
    runAlone_bind, List.nil_append, runAlone_pure]

theorem getUtxos_unpaged (hconfirmed : (rowsOf v.stores.confirmed script).length ≤
      config.maxAddressOutputs)
    (hmempool : (rowsOf v.stores.mempool script).length ≤ config.maxAddressOutputs) :
    ∃ answer, getUtxos config v script scriptPubKeyHex none none = .ok answer ∧
      answer.results =
        servedConfirmed config v scriptPubKeyHex (rowsOf v.stores.confirmed script) ++
          servedMempool v scriptPubKeyHex
            ((rowsOf v.stores.confirmed script).map OutputRow.outPoint) false
            (rowsOf v.stores.mempool script) := by
  have hscan : (if (none.filter (0 < ·) : Option Nat).isSome then
      v.stores.confirmed.getOutputsScriptPubKey script (none.filter (0 < ·)) none none
    else v.stores.confirmed.getOutputsScriptPubKey script none none
      (some config.maxAddressOutputs)) = .ok (rowsOf v.stores.confirmed script) :=
    (if_neg (by simp)).trans (if_neg (not_lt.mpr hconfirmed))
  obtain ⟨answer, hanswer, hresults, -⟩ :=
    getUtxos_eq hscan ((if_pos (Or.inl rfl)).trans (if_neg (not_lt.mpr hmempool)))
  exact ⟨answer, hanswer, hresults⟩

/-- The cursor that resumes after the given rows, and none before the first. -/
def cursorAfter (rows : List OutputRow) : Option String :=
  rows.getLast?.map fun row => outputCursor row.txid row.vout

variable {limit : Nat} {before rest : List OutputRow}

/-- A page takes the next `limit` rows behind its cursor. -/
theorem getOutputsScriptPubKey_page (hwell : OutputsWellFormed v.stores.confirmed.db)
    (hlimit : 0 < limit) (hsplit : rowsOf v.stores.confirmed script = before ++ rest) :
    v.stores.confirmed.getOutputsScriptPubKey script (some limit) (cursorAfter before) none =
      .ok (rest.take limit) := by
  have hfilter : (some limit).filter (0 < ·) = some limit := by simp [hlimit]
  unfold getOutputsScriptPubKey
  rcases List.eq_nil_or_concat before with rfl | ⟨init, last, rfl⟩
  · rw [hfilter]
    simp only [cursorAfter, List.getLast?_nil, Option.map_none, bind, Except.bind]
    rw [show scan v.stores.confirmed.db (outputRowAccept script none) = rest from hsplit]
  · rw [List.concat_eq_append, List.append_assoc, List.singleton_append] at hsplit
    have hmem : last ∈ rowsOf v.stores.confirmed script := by simp [hsplit]
    have hcursor : parseOutputCursor (outputCursor last.txid last.vout) =
        some (last.txid, last.vout) := parseOutputCursor_outputCursor (hwell.vout_le hmem)
    have hordered : (rowsOf v.stores.confirmed script).Pairwise fun a b =>
        compare (a.scanKey script) (b.scanKey script) = .lt := rowsOf_ordered
    rw [hsplit] at hordered
    have hscan : scan v.stores.confirmed.db (outputRowAccept script (some (last.txid, last.vout))) =
        _ := scan_after _
    rw [hsplit] at hscan
    rw [hfilter, cursorAfter, List.concat_eq_append, List.getLast?_concat, Option.map_some]
    simp only [hcursor, bind, Except.bind]
    rw [hscan]
    exact congrArg (fun rows => Except.ok (rows.take limit)) (filter_after hordered)

/-- **One page**, from the cursor behind the rows already served. -/
theorem getUtxos_page (hwell : OutputsWellFormed v.stores.confirmed.db)
    (hmempool : (rowsOf v.stores.mempool script).length ≤ config.maxAddressOutputs)
    (hlimit : 0 < limit) (hsplit : rowsOf v.stores.confirmed script = before ++ rest) :
    ∃ answer, getUtxos config v script scriptPubKeyHex (some limit) (cursorAfter before) =
        .ok answer ∧
      answer.results = servedConfirmed config v scriptPubKeyHex (rest.take limit) ++
        servedMempool v scriptPubKeyHex ((rest.take limit).map OutputRow.outPoint) true
          (if before = [] then rowsOf v.stores.mempool script else []) ∧
      answer.nextCursor =
        if limit ≤ rest.length then cursorAfter (rest.take limit) else none := by
  have hfilter : (some limit).filter (0 < ·) = some limit := by simp [hlimit]
  have hpage := getOutputsScriptPubKey_page hwell hlimit hsplit
  have hrows : (if ((some limit).filter (0 < ·)).isSome then
      v.stores.confirmed.getOutputsScriptPubKey script ((some limit).filter (0 < ·))
        (cursorAfter before) none
    else v.stores.confirmed.getOutputsScriptPubKey script none none
      (some config.maxAddressOutputs)) = .ok (rest.take limit) := by
    rw [hfilter]
    exact (if_pos rfl).trans hpage
  have hfirst : cursorAfter before = none ↔ before = [] := by
    rw [cursorAfter, Option.map_eq_none_iff, List.getLast?_eq_none_iff]
  have hmem : (if (some limit).filter (0 < ·) = none ∨ cursorAfter before = none then
      v.stores.mempool.getOutputsScriptPubKey script none none (some config.maxAddressOutputs)
    else .ok []) = .ok (if before = [] then rowsOf v.stores.mempool script else []) := by
    by_cases hbefore : before = []
    · rw [if_pos (Or.inr (hfirst.mpr hbefore)), if_pos hbefore]
      exact if_neg (not_lt.mpr hmempool)
    · rw [if_neg (by simp [hfilter, hfirst, hbefore]), if_neg hbefore]
  obtain ⟨answer, hanswer, hresults, hcursor⟩ := getUtxos_eq (v := v) hrows hmem
  refine ⟨answer, hanswer, ?_, ?_⟩
  · rw [hresults, hfilter]
    rfl
  · rw [hcursor, hfilter, cursorAfter]
    cases hlast : (rest.take limit).getLast? with
    | none =>
        have hrest : ¬ limit ≤ rest.length := by
          rw [List.getLast?_eq_none_iff, List.take_eq_nil_iff] at hlast
          rw [hlast.resolve_left hlimit.ne', List.length_nil]
          omega
        simp [nextPageCursor, hlast, hrest]
    | some row => simp [nextPageCursor, hlast, List.length_take]

end Page

/-! ### The whole walk -/

/-- Following `nextCursor` from a cursor until a page has none, and the pages met. -/
inductive PageWalk (page : Option String → Except QueryError UtxosAnswer) :
    Option String → List UtxosAnswer → Prop where
  | last {after : Option String} {answer : UtxosAnswer} (hpage : page after = .ok answer)
      (hlast : answer.nextCursor = none) : PageWalk page after [answer]
  | next {after : Option String} {answer : UtxosAnswer} {cursor : String}
      {rest : List UtxosAnswer} (hpage : page after = .ok answer)
      (hnext : answer.nextCursor = some cursor) (hrest : PageWalk page (some cursor) rest) :
      PageWalk page after (answer :: rest)

section Walk

variable {config : AddressConfig} {v : View} {script : Hash} {scriptPubKeyHex : String} {limit : Nat}

theorem servedConfirmed_append (first second : List OutputRow) :
    servedConfirmed config v scriptPubKeyHex (first ++ second) =
      servedConfirmed config v scriptPubKeyHex first ++
        servedConfirmed config v scriptPubKeyHex second := List.filterMap_append

/-- The pages behind the first serve the confirmed rows they start before. -/
theorem pageWalk_behind (config : AddressConfig) (hwell : OutputsWellFormed v.stores.confirmed.db)
    (hmempool : (rowsOf v.stores.mempool script).length ≤ config.maxAddressOutputs)
    (hlimit : 0 < limit) {before rest : List OutputRow} (hne : before ≠ [])
    (hsplit : rowsOf v.stores.confirmed script = before ++ rest) :
    ∃ pages, PageWalk (getUtxos config v script scriptPubKeyHex (some limit)) (cursorAfter before)
        pages ∧
      pages.flatMap UtxosAnswer.results = servedConfirmed config v scriptPubKeyHex rest := by
  induction hlength : rest.length using Nat.strong_induction_on generalizing before rest with
  | _ n ih =>
  obtain ⟨answer, hanswer, hresults, hcursor⟩ := getUtxos_page hwell hmempool hlimit hsplit
  rw [if_neg hne] at hresults
  have hnone : servedMempool v scriptPubKeyHex ((rest.take limit).map OutputRow.outPoint) true [] =
      [] := rfl
  rw [hnone, List.append_nil] at hresults
  by_cases hle : limit ≤ rest.length
  · -- A full page: the rows behind it are fewer.
    have hpage : rest.take limit ≠ [] := by
      rw [Ne, List.take_eq_nil_iff]
      rintro (rfl | rfl)
      · exact absurd hlimit (lt_irrefl 0)
      · exact absurd hle (not_le.mpr hlimit)
    obtain ⟨row, hlast⟩ : ∃ row, (rest.take limit).getLast? = some row :=
      ⟨_, List.getLast?_eq_some_getLast hpage⟩
    have hmore : cursorAfter (before ++ rest.take limit) = cursorAfter (rest.take limit) := by
      rw [cursorAfter, cursorAfter, List.getLast?_append_of_ne_nil _ hpage]
    obtain ⟨pages, hwalk, hpages⟩ := ih (rest.drop limit).length
      (by rw [List.length_drop]; omega) (List.append_ne_nil_of_left_ne_nil hne _)
      (by rw [List.append_assoc, List.take_append_drop, hsplit]) rfl
    have hnext : answer.nextCursor = some (outputCursor row.txid row.vout) := by
      rw [hcursor, if_pos hle, cursorAfter, hlast]
      rfl
    rw [hmore, cursorAfter, hlast, Option.map_some] at hwalk
    refine ⟨answer :: pages, .next hanswer hnext hwalk, ?_⟩
    rw [List.flatMap_cons, hpages, hresults, ← servedConfirmed_append, List.take_append_drop]
  · rw [if_neg hle] at hcursor
    refine ⟨[answer], .last hanswer hcursor, ?_⟩
    rw [List.flatMap_cons, List.flatMap_nil, List.append_nil, hresults,
      List.take_of_length_le (le_of_not_ge hle)]

/-- The confirmed outpoints served are outpoints of rows. -/
theorem outPoint_of_servableConfirmedUtxo {tip : Int} {row : OutputRow} {utxo : Utxo}
    (hserved : servableConfirmedUtxo config tip scriptPubKeyHex row = some utxo) :
    utxo.outPoint = row.outPoint := by
  unfold servableConfirmedUtxo at hserved
  dsimp only at hserved
  split at hserved
  · cases hserved
  · split at hserved
    · cases hserved
    · obtain rfl := Option.some.inj hserved
      rfl

theorem map_servedConfirmed_sublist (rows : List OutputRow) :
    ((servedConfirmed config v scriptPubKeyHex rows).map Utxo.outPoint).Sublist
      (rows.map OutputRow.outPoint) := by
  induction rows with
  | nil => exact .slnil
  | cons row rest ih =>
      rw [servedConfirmed, List.filterMap_cons]
      split
      · exact ih.cons _
      · next utxo hserved =>
          rw [Option.ite_none_left_eq_some] at hserved
          rw [List.map_cons, List.map_cons, outPoint_of_servableConfirmedUtxo hserved.2]
          exact ih.cons_cons _

theorem map_servedMempool_sublist (confirmedKeys : List OutPoint) (paged : Bool)
    (rows : List OutputRow) :
    ((servedMempool v scriptPubKeyHex confirmedKeys paged rows).map Utxo.outPoint).Sublist
      (rows.map OutputRow.outPoint) := by
  induction rows with
  | nil => exact .slnil
  | cons row rest ih =>
      rw [servedMempool, List.filterMap_cons]
      split
      · exact ih.cons _
      · next utxo hserved =>
          rw [Option.ite_none_left_eq_some] at hserved
          obtain rfl := Option.some.inj hserved.2
          exact ih.cons_cons _

/-- The confirmed list has an outpoint of the mempool exactly when the probe finds it. -/
theorem mem_confirmed_iff_hint (hconfirmedWell : OutputsWellFormed v.stores.confirmed.db)
    (hmempoolWell : OutputsWellFormed v.stores.mempool.db)
    (hhints : HintsExact v.stores.confirmed.db) (hscripts : SameScripts v.stores)
    {row : OutputRow} (hrow : row ∈ rowsOf v.stores.mempool script) :
    row.outPoint ∈ (rowsOf v.stores.confirmed script).map OutputRow.outPoint ↔
      v.stores.confirmed.hasOutputForTx row.requireFullTxid row.vout = true := by
  have htxid := hmempoolWell.outPoint hrow
  obtain ⟨record, hget, -⟩ := mem_rowsOf.mp hrow
  rw [hasOutputForTx, htxid, hhints, List.mem_map]
  constructor
  · rintro ⟨other, hother, heq⟩
    obtain ⟨record', hget', -⟩ := mem_rowsOf.mp hother
    have htxid' : other.txid = row.txid := by
      rw [← hconfirmedWell.outPoint hother, ← htxid]
      exact congrArg OutPoint.txid heq
    have hvout' : other.vout = row.vout := congrArg OutPoint.index heq
    rw [OutputRow.scanKey, htxid', hvout'] at hget'
    exact ⟨script, by rw [hget']; rfl⟩
  · rintro ⟨script', hsome⟩
    obtain rfl := hscripts script script' row.txid row.vout (by
      rw [show Key.output script row.txid row.vout = row.scanKey script from rfl, hget]
      rfl) hsome
    obtain ⟨value, hvalue⟩ := Option.isSome_iff_exists.mp hsome
    obtain ⟨-, known, rfl, -⟩ := hconfirmedWell _ _ _ _ hvalue
    have hother : OutputRow.ofRecord row.txid row.vout known ∈ rowsOf v.stores.confirmed script' :=
      mem_rowsOf.mpr ⟨known, hvalue, rfl⟩
    refine ⟨_, hother, ?_⟩
    rw [OutputRow.outPoint, OutputRow.outPoint, hconfirmedWell.outPoint hother, htxid]
    rfl

/-- Probing the confirmed store skips just the outpoints of the whole confirmed list, whichever rows
the page holds. -/
theorem servedMempool_firstPage (hconfirmedWell : OutputsWellFormed v.stores.confirmed.db)
    (hmempoolWell : OutputsWellFormed v.stores.mempool.db)
    (hhints : HintsExact v.stores.confirmed.db) (hscripts : SameScripts v.stores)
    {page : List OutputRow} (hpage : page.Sublist (rowsOf v.stores.confirmed script)) :
    servedMempool v scriptPubKeyHex (page.map OutputRow.outPoint) true
        (rowsOf v.stores.mempool script) =
      servedMempool v scriptPubKeyHex ((rowsOf v.stores.confirmed script).map OutputRow.outPoint)
        false (rowsOf v.stores.mempool script) := by
  refine List.filterMap_congr fun row hrow => ?_
  have hlisted := mem_confirmed_iff_hint hconfirmedWell hmempoolWell hhints hscripts hrow
  have hsubset : row.outPoint ∈ page.map OutputRow.outPoint →
      row.outPoint ∈ (rowsOf v.stores.confirmed script).map OutputRow.outPoint :=
    fun hin => (hpage.map _).subset hin
  by_cases hin : row.outPoint ∈ (rowsOf v.stores.confirmed script).map OutputRow.outPoint
  · have helsewhere := hlisted.mp hin
    simp only [hin, helsewhere, true_or, or_true, and_self, if_true]
  · have helsewhere := mt hlisted.mpr hin
    simp only [hin, mt hsubset hin, helsewhere, false_or]
    simp

/-- No outpoint is served twice by the unpaged read. -/
theorem served_nodup (hconfirmedWell : OutputsWellFormed v.stores.confirmed.db)
    (hmempoolWell : OutputsWellFormed v.stores.mempool.db) :
    ((servedConfirmed config v scriptPubKeyHex (rowsOf v.stores.confirmed script) ++
      servedMempool v scriptPubKeyHex ((rowsOf v.stores.confirmed script).map OutputRow.outPoint)
        false (rowsOf v.stores.mempool script)).map Utxo.outPoint).Nodup := by
  rw [List.map_append, List.nodup_append]
  refine ⟨hconfirmedWell.nodup.sublist (map_servedConfirmed_sublist _),
    hmempoolWell.nodup.sublist (map_servedMempool_sublist _ _ _), ?_⟩
  rintro o ho o' ho' rfl
  have hin := (map_servedConfirmed_sublist _).subset ho
  obtain ⟨utxo, hutxo, rfl⟩ := List.mem_map.mp ho'
  obtain ⟨row, -, hserved⟩ := List.mem_filterMap.mp hutxo
  rw [Option.ite_none_left_eq_some] at hserved
  obtain ⟨hnot, hrow⟩ := hserved
  obtain rfl := Option.some.inj hrow
  exact hnot (Or.inl hin)

/-- The pages of a walk: the mempool entries stand behind those of the first page. -/
theorem exists_pageWalk (hconfirmedWell : OutputsWellFormed v.stores.confirmed.db)
    (hmempoolWell : OutputsWellFormed v.stores.mempool.db)
    (hhints : HintsExact v.stores.confirmed.db) (hscripts : SameScripts v.stores)
    (hmempool : (rowsOf v.stores.mempool script).length ≤ config.maxAddressOutputs)
    (hlimit : 0 < limit) :
    ∃ pages, PageWalk (getUtxos config v script scriptPubKeyHex (some limit)) none pages ∧
      pages.flatMap UtxosAnswer.results =
        servedConfirmed config v scriptPubKeyHex ((rowsOf v.stores.confirmed script).take limit) ++
          servedMempool v scriptPubKeyHex
            ((rowsOf v.stores.confirmed script).map OutputRow.outPoint) false
            (rowsOf v.stores.mempool script) ++
          servedConfirmed config v scriptPubKeyHex
            ((rowsOf v.stores.confirmed script).drop limit) := by
  obtain ⟨answer, hanswer, hresults, hcursor⟩ :
      ∃ answer, getUtxos config v script scriptPubKeyHex (some limit) (cursorAfter []) = _ ∧ _ ∧ _ :=
    getUtxos_page hconfirmedWell hmempool hlimit (List.nil_append _).symm
  rw [if_pos rfl, servedMempool_firstPage hconfirmedWell hmempoolWell hhints hscripts
    (List.take_sublist limit _)] at hresults
  by_cases hle : limit ≤ (rowsOf v.stores.confirmed script).length
  · have hpage : (rowsOf v.stores.confirmed script).take limit ≠ [] := by
      rw [Ne, List.take_eq_nil_iff]
      rintro (h | h)
      · omega
      · rw [h, List.length_nil] at hle
        omega
    obtain ⟨pages, hwalk, hpages⟩ := pageWalk_behind config hconfirmedWell hmempool
      hlimit hpage (List.take_append_drop limit _).symm
    obtain ⟨row, hlast⟩ : ∃ row, ((rowsOf v.stores.confirmed script).take limit).getLast? = some row :=
      ⟨_, List.getLast?_eq_some_getLast hpage⟩
    rw [if_pos hle, cursorAfter, hlast, Option.map_some] at hcursor
    rw [cursorAfter, hlast, Option.map_some] at hwalk
    refine ⟨answer :: pages, .next hanswer hcursor hwalk, ?_⟩
    rw [List.flatMap_cons, hresults, hpages]
  · rw [if_neg hle] at hcursor
    refine ⟨[answer], .last hanswer hcursor, ?_⟩
    rw [List.flatMap_cons, List.flatMap_nil, hresults,
      List.drop_of_length_le (le_of_not_ge hle)]
    rfl

/-- **A page walk lists what one unpaged read lists.** Over stores and a cached tip that stay as they
are, whose `H` records are exact, and for an address whose outputs an unpaged read accepts:
following `nextCursor` ends, and its pages hold the unpaged entries, no outpoint twice. -/
theorem page_walk_lists_all (hlimit : 1 ≤ limit)
    (hconfirmedWell : OutputsWellFormed v.stores.confirmed.db)
    (hmempoolWell : OutputsWellFormed v.stores.mempool.db)
    (hhints : HintsExact v.stores.confirmed.db) (hscripts : SameScripts v.stores)
    (hconfirmed : (rowsOf v.stores.confirmed script).length ≤ config.maxAddressOutputs)
    (hmempool : (rowsOf v.stores.mempool script).length ≤ config.maxAddressOutputs) :
    ∃ pages all,
      PageWalk (getUtxos config v script scriptPubKeyHex (some limit)) none pages ∧
      getUtxos config v script scriptPubKeyHex none none = .ok all ∧
      (pages.flatMap UtxosAnswer.results).Perm all.results ∧
      ((pages.flatMap UtxosAnswer.results).map Utxo.outPoint).Nodup := by
  obtain ⟨all, hall, hresults⟩ := getUtxos_unpaged hconfirmed hmempool
  obtain ⟨pages, hwalk, hpages⟩ :=
    exists_pageWalk hconfirmedWell hmempoolWell hhints hscripts hmempool hlimit
  have hsame : (pages.flatMap UtxosAnswer.results).Perm all.results := by
    have hcut : servedConfirmed config v scriptPubKeyHex (rowsOf v.stores.confirmed script) =
        servedConfirmed config v scriptPubKeyHex ((rowsOf v.stores.confirmed script).take limit) ++
          servedConfirmed config v scriptPubKeyHex
            ((rowsOf v.stores.confirmed script).drop limit) := by
      rw [← servedConfirmed_append, List.take_append_drop]
    rw [hpages, hresults, hcut, List.append_assoc, List.append_assoc]
    exact List.Perm.append_left _ List.perm_append_comm
  refine ⟨pages, all, hwalk, hall, hsame, (hsame.map _).nodup_iff.mpr ?_⟩
  rw [hresults]
  exact served_nodup hconfirmedWell hmempoolWell

/-- Stores with one confirmed and one mempool output of script 7. -/
def twoOutputs : View :=
  { stores :=
      { confirmed := { createDatabase ((∅ : Db)
            |>.insert (.output 7 1 0) (.output ⟨50, 0, 1, false⟩)
            |>.insert (.outHint 1 0) (.hash 7)) with transactionArray := none }
        mempool := { createDatabase ((∅ : Db)
            |>.insert (.output 7 2 0) (.output ⟨30, -1, 2, false⟩)) with transactionArray := none } }
    memory := ⟨3, 0, 1, true⟩ }

/-- A walk in pages of one over a script with an output in each store. -/
theorem page_walk_lists_all_twoOutputs :
    ∃ pages all,
      PageWalk (getUtxos ⟨0, 5⟩ twoOutputs 7 "76a9" (some 1)) none pages ∧
      getUtxos ⟨0, 5⟩ twoOutputs 7 "76a9" none none = .ok all ∧
      (pages.flatMap UtxosAnswer.results).Perm all.results ∧
      ((pages.flatMap UtxosAnswer.results).map Utxo.outPoint).Nodup := by
  refine page_walk_lists_all (Nat.le_refl 1) ?_ ?_ ?_ ?_ (length_rowsOf_le.trans ?_)
    (length_rowsOf_le.trans ?_)
  · intro script txid vout value hget
    obtain ⟨⟨-, rfl, rfl⟩, rfl⟩ : (7 = script ∧ 1 = txid ∧ 0 = vout) ∧
        Value.output ⟨50, 0, 1, false⟩ = value := by
      simpa [twoOutputs, createDatabase, Std.ExtTreeMap.getElem?_insert] using hget
    exact ⟨by decide, _, rfl, Or.inl rfl⟩
  · intro script txid vout value hget
    obtain ⟨⟨-, rfl, rfl⟩, rfl⟩ : (7 = script ∧ 2 = txid ∧ 0 = vout) ∧
        Value.output ⟨30, -1, 2, false⟩ = value := by
      simpa [twoOutputs, createDatabase, Std.ExtTreeMap.getElem?_insert] using hget
    exact ⟨by decide, _, rfl, Or.inl rfl⟩
  · intro txid vout
    simp [twoOutputs, createDatabase, Std.ExtTreeMap.getElem?_insert]
  · intro script script' txid vout hmempool hconfirmed
    have hseven : 7 = script ∧ 2 = txid ∧ 0 = vout := by
      simpa [twoOutputs, createDatabase, Std.ExtTreeMap.getElem?_insert] using hmempool
    have hseven' : 7 = script' ∧ 1 = txid ∧ 0 = vout := by
      simpa [twoOutputs, createDatabase, Std.ExtTreeMap.getElem?_insert] using hconfirmed
    exact hseven'.1.symm.trans hseven.1
  · simp [twoOutputs, createDatabase, Std.ExtTreeMap.size_insert]
  · simp [twoOutputs, createDatabase, Std.ExtTreeMap.size_insert]

end Walk

end UtxoTracker

import Mathlib.Algebra.BigOperators.Group.List.Basic
import Mathlib.Algebra.Ring.Int.Defs
import UtxoTracker.Lib.FixedPoint
import UtxoTracker.Safety.Paging
/-!
# The balance agrees with the outputs

`getBalanceInfo` and the unpaged `getUtxosAddress` over the same two stores. The balance is what the
answer serves and what it withholds; the count adds the outputs that the mempool spends. An outpoint
of both stores counts with the confirmed one alone.
-/

namespace UtxoTracker

open FixedPoint KeyedStore LevelUpStore Resumption

/-! ### Amounts as text -/

/-- The satoshis that an amount with its eight places stands for. -/
def satoshisOfDecimal (amount : String) : Int :=
  let digits := Nat.ofDigitChars 10 (amount.toList.filter Char.isDigit) 0
  if amount.toList.head? = some '-' then -digits else digits

theorem toList_satoshiToDecimalString (satoshis : Int) :
    (satoshiToDecimalString satoshis).toList =
      (if satoshis < 0 then ['-'] else []) ++ (Nat.toDigits 10 (satoshis.natAbs / 10 ^ 8) ++ '.' ::
        paddedDigits 8 (satoshis.natAbs % 10 ^ 8)) := by
  have hsign : (if satoshis < 0 then "-" else "").toList = if satoshis < 0 then ['-'] else [] := by
    split_ifs <;> rfl
  have hplaces : (100000000 : Nat) = 10 ^ 8 := by decide
  rw [satoshiToDecimalString, hplaces, String.toList_append, String.toList_append,
    String.toList_append, String.toList_append, hsign, toList_pushn, Nat.toList_repr,
    Nat.toList_repr, paddedDigits, List.append_assoc, List.append_assoc, List.append_assoc]
  rfl

/-- **An amount is read back from its text**, so no two amounts share one. -/
theorem satoshisOfDecimal_leftInverse :
    Function.LeftInverse satoshisOfDecimal satoshiToDecimalString := by
  intro satoshis
  have hdigits : (satoshiToDecimalString satoshis).toList.filter Char.isDigit =
      Nat.toDigits 10 (satoshis.natAbs / 10 ^ 8) ++
        paddedDigits 8 (satoshis.natAbs % 10 ^ 8) := by
    have hsign : (if satoshis < 0 then ['-'] else []).filter Char.isDigit = [] := by
      split_ifs <;> rfl
    rw [toList_satoshiToDecimalString, List.filter_append, List.filter_append, hsign,
      filter_isDigit_toDigits, List.filter_cons_of_neg (by decide), filter_isDigit_paddedDigits,
      List.nil_append]
  have hhead : (satoshiToDecimalString satoshis).toList.head? = some '-' ↔ satoshis < 0 := by
    rw [toList_satoshiToDecimalString]
    by_cases hneg : satoshis < 0
    · simp [hneg]
    · rw [if_neg hneg, List.nil_append]
      exact iff_of_false (head?_toDigits_append _) hneg
  rw [satoshisOfDecimal, hdigits, ofDigitChars_parts (by decide)]
  by_cases hneg : satoshis < 0
  · rw [if_pos (hhead.mpr hneg)]
    omega
  · rw [if_neg (mt hhead.mp hneg)]
    omega

section Balance

variable {config : AddressConfig} {v : View} {scriptPubKeyHex : String} {script : Hash}

/-- A mempool transaction spends the row's output. -/
def spentInMempool (v : View) (row : OutputRow) : Bool :=
  (v.stores.mempool.getInput row.requireFullTxid row.vout).isSome

/-- The confirmed rows that the answer withholds: too young, or above the cached tip. -/
def withheldRows (config : AddressConfig) (v : View) (scriptPubKeyHex : String)
    (rows : List OutputRow) : List OutputRow :=
  rows.filter fun row => !spentInMempool v row &&
    (servableConfirmedUtxo config v.memory.blockchainInfoLastBlock scriptPubKeyHex row).isNone

def spentRows (v : View) (rows : List OutputRow) : List OutputRow := rows.filter (spentInMempool v)

/-- The mempool rows that count: not of a confirmed outpoint, and not spent in the mempool. -/
def pendingRows (v : View) (confirmedKeys : List OutPoint) (rows : List OutputRow) :
    List OutputRow :=
  rows.filter fun row => decide (row.outPoint ∉ confirmedKeys) && !spentInMempool v row

/-- The satoshis of some rows. -/
def rowsTotal (rows : List OutputRow) : Int := (rows.map fun row => (row.value : Int)).sum

/-- The satoshis of some served outputs. -/
def servedTotal (utxos : List Utxo) : Int := (utxos.map fun utxo => (utxo.value : Int)).sum

@[simp] theorem rowsTotal_nil : rowsTotal [] = 0 := rfl

@[simp] theorem rowsTotal_cons (row : OutputRow) (rows : List OutputRow) :
    rowsTotal (row :: rows) = row.value + rowsTotal rows := List.sum_cons

@[simp] theorem servedTotal_nil : servedTotal [] = 0 := rfl

@[simp] theorem servedTotal_cons (utxo : Utxo) (utxos : List Utxo) :
    servedTotal (utxo :: utxos) = utxo.value + servedTotal utxos := List.sum_cons

theorem servedTotal_append (first second : List Utxo) :
    servedTotal (first ++ second) = servedTotal first + servedTotal second := by
  rw [servedTotal, List.map_append, List.sum_append]
  rfl

/-! ### The two loops -/

theorem runAlone_balanceOfConfirmed (rows : List OutputRow) (totals : BalanceTotals) :
    (balanceOfConfirmed rows totals).runAlone v =
      { totals with
        totalReceived := totals.totalReceived + rowsTotal rows
        pendingBalance := totals.pendingBalance - rowsTotal (spentRows v rows)
        confirmedBalance := totals.confirmedBalance + rowsTotal rows
        utxosConfirmed := totals.utxosConfirmed + rows.length } := by
  induction rows generalizing totals with
  | nil => simp [balanceOfConfirmed, spentRows]
  | cons row rest ih =>
      rw [balanceOfConfirmed, runAlone_bind, runAlone_observe, ih]
      by_cases hspent : spentInMempool v row = true
      · have hinput : (v.stores.mempool.getInput row.requireFullTxid row.vout).isSome = true := hspent
        have hrows : spentRows v (row :: rest) = row :: spentRows v rest :=
          List.filter_cons_of_pos hspent
        rw [if_pos hinput, hrows, rowsTotal_cons, rowsTotal_cons, List.length_cons]
        ext <;> simp only <;> omega
      · have hinput : ¬(v.stores.mempool.getInput row.requireFullTxid row.vout).isSome = true :=
          hspent
        have hrows : spentRows v (row :: rest) = spentRows v rest := List.filter_cons_of_neg hspent
        rw [if_neg hinput, hrows, rowsTotal_cons, List.length_cons]
        ext <;> simp only <;> omega

theorem runAlone_balanceOfMempool (confirmedKeys : List OutPoint) (rows : List OutputRow)
    (totals : BalanceTotals) :
    (balanceOfMempool confirmedKeys rows totals).runAlone v =
      { totals with
        pendingBalance := totals.pendingBalance + rowsTotal (pendingRows v confirmedKeys rows)
        utxosPending := totals.utxosPending + (pendingRows v confirmedKeys rows).length } := by
  induction rows generalizing totals with
  | nil => simp [balanceOfMempool, pendingRows]
  | cons row rest ih =>
      rw [balanceOfMempool]
      by_cases hkey : row.outPoint ∈ confirmedKeys
      · have hrows : pendingRows v confirmedKeys (row :: rest) = pendingRows v confirmedKeys rest :=
          List.filter_cons_of_neg (by simp [hkey])
        rw [if_pos hkey, ih, hrows]
      rw [if_neg hkey, runAlone_bind, runAlone_observe, ih]
      by_cases hspent : spentInMempool v row = true
      · have hinput : (v.stores.mempool.getInput row.requireFullTxid row.vout).isSome = true := hspent
        have hrows : pendingRows v confirmedKeys (row :: rest) = pendingRows v confirmedKeys rest :=
          List.filter_cons_of_neg (by simp [hspent])
        rw [if_pos hinput, hrows]
      · have hinput : ¬(v.stores.mempool.getInput row.requireFullTxid row.vout).isSome = true :=
          hspent
        have hrows : pendingRows v confirmedKeys (row :: rest) =
            row :: pendingRows v confirmedKeys rest :=
          List.filter_cons_of_pos (by simp [hkey, hspent])
        rw [if_neg hinput, hrows, rowsTotal_cons, List.length_cons]
        ext <;> simp only <;> omega

/-! ### The answer's rows -/

/-- Every confirmed row is served, withheld or spent in the mempool. -/
theorem rowsTotal_confirmed (config : AddressConfig) (v : View) (scriptPubKeyHex : String)
    (rows : List OutputRow) :
    rowsTotal rows = servedTotal (servedConfirmed config v scriptPubKeyHex rows) +
        rowsTotal (withheldRows config v scriptPubKeyHex rows) + rowsTotal (spentRows v rows) ∧
      rows.length = (servedConfirmed config v scriptPubKeyHex rows).length +
        (withheldRows config v scriptPubKeyHex rows).length + (spentRows v rows).length := by
  induction rows with
  | nil => exact ⟨rfl, rfl⟩
  | cons row rest ih =>
      obtain ⟨htotal, hlength⟩ := ih
      by_cases hspent : spentInMempool v row = true
      · have hserved : servedConfirmed config v scriptPubKeyHex (row :: rest) =
            servedConfirmed config v scriptPubKeyHex rest :=
          List.filterMap_cons_none (if_pos hspent)
        have hwithheld : withheldRows config v scriptPubKeyHex (row :: rest) =
            withheldRows config v scriptPubKeyHex rest :=
          List.filter_cons_of_neg (by simp [hspent])
        have hrows : spentRows v (row :: rest) = row :: spentRows v rest :=
          List.filter_cons_of_pos hspent
        rw [hserved, hwithheld, hrows, rowsTotal_cons, rowsTotal_cons, List.length_cons,
          List.length_cons]
        omega
      have hrows : spentRows v (row :: rest) = spentRows v rest := List.filter_cons_of_neg hspent
      rcases hservable : servableConfirmedUtxo config v.memory.blockchainInfoLastBlock
          scriptPubKeyHex row with _ | utxo
      · have hserved : servedConfirmed config v scriptPubKeyHex (row :: rest) =
            servedConfirmed config v scriptPubKeyHex rest :=
          List.filterMap_cons_none ((if_neg hspent).trans hservable)
        have hwithheld : withheldRows config v scriptPubKeyHex (row :: rest) =
            row :: withheldRows config v scriptPubKeyHex rest :=
          List.filter_cons_of_pos (by simp [hspent, hservable])
        rw [hserved, hwithheld, hrows, rowsTotal_cons, rowsTotal_cons, List.length_cons,
          List.length_cons]
        omega
      · have hserved : servedConfirmed config v scriptPubKeyHex (row :: rest) =
            utxo :: servedConfirmed config v scriptPubKeyHex rest :=
          List.filterMap_cons_some ((if_neg hspent).trans hservable)
        have hwithheld : withheldRows config v scriptPubKeyHex (row :: rest) =
            withheldRows config v scriptPubKeyHex rest :=
          List.filter_cons_of_neg (by simp [hservable])
        have hvalue : utxo.value = row.value := by
          unfold servableConfirmedUtxo at hservable
          dsimp only at hservable
          split_ifs at hservable
          rw [← Option.some.inj hservable]
        rw [hserved, hwithheld, hrows, rowsTotal_cons, servedTotal_cons, hvalue, List.length_cons,
          List.length_cons]
        omega

/-- The mempool rows served are the ones that count. -/
theorem servedMempool_eq (confirmedKeys : List OutPoint) (rows : List OutputRow) :
    servedMempool v scriptPubKeyHex confirmedKeys false rows =
      (pendingRows v confirmedKeys rows).map (mempoolUtxo scriptPubKeyHex) := by
  rw [pendingRows, ← List.filterMap_eq_map, List.filterMap_filter]
  refine List.filterMap_congr fun row _ => ?_
  by_cases hkey : row.outPoint ∈ confirmedKeys
  · simp [hkey]
  · by_cases hspent : spentInMempool v row = true
    · have hinput : (v.stores.mempool.getInput row.requireFullTxid row.vout).isSome = true := hspent
      simp [hinput, hspent]
    · have hinput : ¬(v.stores.mempool.getInput row.requireFullTxid row.vout).isSome = true := hspent
      simp [hkey, hinput, hspent]

theorem servedTotal_mempool (rows : List OutputRow) :
    servedTotal (rows.map (mempoolUtxo scriptPubKeyHex)) = rowsTotal rows := by
  rw [servedTotal, List.map_map]
  rfl

/-! ### The answers -/

/-- `getBalanceInfo` over stores that stay as they are. -/
def getBalance (config : AddressConfig) (v : View) (script : Hash) :
    Except QueryError BalanceInfo := (readBalanceInfo config script).runAlone v

/-- What the balance adds up. -/
def balanceTotals (v : View) (confirmed mempool : List OutputRow) : BalanceTotals :=
  { confirmedBalance := rowsTotal confirmed
    pendingBalance := rowsTotal (pendingRows v (confirmed.map OutputRow.outPoint) mempool) -
      rowsTotal (spentRows v confirmed)
    totalReceived := rowsTotal confirmed
    utxosConfirmed := confirmed.length
    utxosPending := (pendingRows v (confirmed.map OutputRow.outPoint) mempool).length }

/-- The outpoints that the balance counts. -/
def countedOutPoints (v : View) (script : Hash) : List OutPoint :=
  (rowsOf v.stores.confirmed script).map OutputRow.outPoint ++
    (pendingRows v ((rowsOf v.stores.confirmed script).map OutputRow.outPoint)
      (rowsOf v.stores.mempool script)).map OutputRow.outPoint

theorem getBalance_eq
    (hconfirmed : (rowsOf v.stores.confirmed script).length ≤ config.maxAddressOutputs)
    (hmempool : (rowsOf v.stores.mempool script).length ≤ config.maxAddressOutputs) :
    ∃ snapshot, getBalance config v script = .ok (balanceInfoResult
      (balanceTotals v (rowsOf v.stores.confirmed script) (rowsOf v.stores.mempool script))
      snapshot) := by
  have hscan : ∀ σ : LevelUpStore, (rowsOf σ script).length ≤ config.maxAddressOutputs →
      σ.getOutputsScriptPubKey script none none (some config.maxAddressOutputs) =
        .ok (rowsOf σ script) := fun σ hle => if_neg (not_lt.mpr hle)
  refine ⟨(readCommittedSnapshot.runAlone v).close.runAlone v, ?_⟩
  unfold getBalance readBalanceInfo
  rw [runAlone_bind, runAlone_bind, runAlone_observe, hscan _ hconfirmed]
  dsimp only
  rw [runAlone_bind, runAlone_observe, hscan _ hmempool]
  dsimp only
  rw [runAlone_bind, runAlone_balanceOfConfirmed, runAlone_bind, runAlone_balanceOfMempool,
    runAlone_bind, runAlone_pure]
  refine congrArg (fun totals => Except.ok (balanceInfoResult totals _)) ?_
  ext <;> simp only [balanceTotals] <;> omega

/-- **The balance agrees with the outputs.** Within the output limit both reads answer; the amounts
that the balance reports are what the unpaged answer serves and withholds, its counts add the confirmed
outputs that the mempool spends, and an outpoint of both stores is counted as often as the confirmed
store lists it: once. -/
theorem balance_agrees_with_utxos (scriptPubKeyHex : String)
    (hconfirmed : (rowsOf v.stores.confirmed script).length ≤ config.maxAddressOutputs)
    (hmempool : (rowsOf v.stores.mempool script).length ≤ config.maxAddressOutputs) :
    ∃ info answer,
      getBalance config v script = .ok info ∧
      getUtxos config v script scriptPubKeyHex none none = .ok answer ∧
      satoshisOfDecimal info.confirmed + satoshisOfDecimal info.pending =
        servedTotal answer.results +
          rowsTotal (withheldRows config v scriptPubKeyHex (rowsOf v.stores.confirmed script)) ∧
      info.utxosConfirmed + info.utxosPending = answer.results.length +
        (withheldRows config v scriptPubKeyHex (rowsOf v.stores.confirmed script)).length +
        (spentRows v (rowsOf v.stores.confirmed script)).length ∧
      info.utxosConfirmed + info.utxosPending = (countedOutPoints v script).length ∧
      ∀ outPoint ∈ (rowsOf v.stores.confirmed script).map OutputRow.outPoint,
        (countedOutPoints v script).count outPoint =
            ((rowsOf v.stores.confirmed script).map OutputRow.outPoint).count outPoint ∧
          (OutputsWellFormed v.stores.confirmed.db →
            (countedOutPoints v script).count outPoint = 1) := by
  obtain ⟨snapshot, hbalance⟩ := getBalance_eq hconfirmed hmempool
  obtain ⟨answer, hanswer, hresults⟩ :
      ∃ answer, getUtxos config v script scriptPubKeyHex none none = .ok answer ∧ _ :=
    getUtxos_unpaged hconfirmed hmempool
  obtain ⟨htotal, hlength⟩ :=
    rowsTotal_confirmed config v scriptPubKeyHex (rowsOf v.stores.confirmed script)
  refine ⟨_, answer, hbalance, hanswer, ?_, ?_, ?_, fun outPoint hmem => ?_⟩
  · rw [balanceInfoResult, satoshisOfDecimal_leftInverse, satoshisOfDecimal_leftInverse, hresults,
      servedTotal_append, servedMempool_eq, servedTotal_mempool]
    dsimp only [balanceTotals]
    omega
  · rw [hresults, List.length_append, servedMempool_eq, List.length_map]
    dsimp only [balanceInfoResult, balanceTotals]
    omega
  · rw [countedOutPoints, List.length_append, List.length_map, List.length_map]
    rfl
  · have hnone : outPoint ∉ (pendingRows v ((rowsOf v.stores.confirmed script).map OutputRow.outPoint)
        (rowsOf v.stores.mempool script)).map OutputRow.outPoint := by
      intro hpending
      obtain ⟨row, hrow, rfl⟩ := List.mem_map.mp hpending
      have hcounts := (List.mem_filter.mp hrow).2
      rw [Bool.and_eq_true, decide_eq_true_iff] at hcounts
      exact hcounts.1 hmem
    have hcount : (countedOutPoints v script).count outPoint =
        ((rowsOf v.stores.confirmed script).map OutputRow.outPoint).count outPoint := by
      rw [countedOutPoints, List.count_append, List.count_eq_zero_of_not_mem hnone, Nat.add_zero]
    refine ⟨hcount, fun hwell => ?_⟩
    rw [hcount]
    exact List.count_eq_one_of_mem hwell.nodup hmem

/-- An output just mined, still in the mempool store beside another. -/
def justMined : View :=
  { stores :=
      { confirmed := { createDatabase ((∅ : Db)
            |>.insert (.output 7 1 0) (.output ⟨50, 3, 1, false⟩)) with transactionArray := none }
        mempool := { createDatabase ((∅ : Db)
            |>.insert (.output 7 1 0) (.output ⟨50, -1, 1, false⟩)
            |>.insert (.output 7 2 0) (.output ⟨30, -1, 2, false⟩)) with transactionArray := none } }
    memory := ⟨3, 0, 1, true⟩ }

theorem balance_agrees_with_utxos_justMined : ∃ info answer,
    getBalance ⟨0, 5⟩ justMined 7 = .ok info ∧
      getUtxos ⟨0, 5⟩ justMined 7 "76a9" none none = .ok answer ∧
      satoshisOfDecimal info.confirmed + satoshisOfDecimal info.pending =
        servedTotal answer.results +
          rowsTotal (withheldRows ⟨0, 5⟩ justMined "76a9" (rowsOf justMined.stores.confirmed 7)) := by
  have hconfirmed : (rowsOf justMined.stores.confirmed 7).length ≤
      (AddressConfig.mk 0 5).maxAddressOutputs :=
    length_rowsOf_le.trans (by simp [justMined, createDatabase, Std.ExtTreeMap.size_insert])
  have hmempool : (rowsOf justMined.stores.mempool 7).length ≤
      (AddressConfig.mk 0 5).maxAddressOutputs :=
    length_rowsOf_le.trans (by simp [justMined, createDatabase, Std.ExtTreeMap.size_insert])
  obtain ⟨info, answer, hbalance, hanswer, htotal, -⟩ :=
    balance_agrees_with_utxos "76a9" hconfirmed hmempool
  exact ⟨info, answer, hbalance, hanswer, htotal⟩

end Balance

end UtxoTracker

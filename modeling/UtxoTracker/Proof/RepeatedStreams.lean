import UtxoTracker.Proof.Repeats
/-!
# Joining the streams of a repeated transaction

The streams of a chain hold, for each outpoint, its creations in height order and as many spends. The
sort and the join keep the order, the load lets the last row win, so the store holds what the join
reading of the outpoint's history leaves.
-/

namespace UtxoTracker

open KeyedStore LevelUpStore Provenance Bulk Recreation AntiJoin

/-! ### The records of one outpoint -/

section Streams

variable {chain : Chain} {b : Block}

theorem withKey_outputs (o : OutPoint) (records : List OutputsRecord) :
    withKey OutputsRecord.key o.fields records =
      records.filter fun record => decide (record.outPoint = o) :=
  List.filter_congr fun record _ => by
    rw [OutputsRecord.key_eq, decide_eq_decide, OutPoint.fields_injective.eq_iff]

/-- A block gives an outpoint one record if it creates it, and none otherwise. -/
theorem withKey_blockOutputs (hnodup : (b.transactions.map Tx.id).Nodup) (height : Nat)
    (o : OutPoint) :
    (withKey OutputsRecord.key o.fields (blockOutputs b height)).map OutputsRecord.newOutput =
      (b.created height o).toList := by
  rw [withKey_outputs]
  have hmem : ∀ record, record ∈ (blockOutputs b height).filter (fun record =>
      decide (record.outPoint = o)) → b.created height o = some record.newOutput := by
    intro record hin
    rw [List.mem_filter, decide_eq_true_eq] at hin
    obtain ⟨-, -, hcreated⟩ := (mem_blockOutputs hnodup).mp hin.1
    rwa [hin.2] at hcreated
  rcases hcreated : b.created height o with _ | out
  · rw [List.map_eq_nil_iff.mpr, Option.toList_none]
    rw [List.eq_nil_iff_forall_not_mem]
    intro record hin
    rw [hmem record hin] at hcreated
    cases hcreated
  · obtain ⟨record, hin, hpoint, hnew, -⟩ := outputs_of_block hnodup hcreated
    have hlength : ((blockOutputs b height).filter fun record =>
        decide (record.outPoint = o)).length = 1 := by
      have hcount := (blockOutputs_nodup hnodup height).count (a := o)
      rw [if_pos (List.mem_map.mpr ⟨record, hin, hpoint⟩), List.count, List.countP_map,
        List.countP_eq_length_filter] at hcount
      exact hcount
    obtain ⟨only, honly⟩ := List.length_eq_one_iff.mp hlength
    have hrecord : record ∈ (blockOutputs b height).filter fun record =>
        decide (record.outPoint = o) := List.mem_filter.mpr ⟨hin, decide_eq_true hpoint⟩
    rw [honly, List.mem_singleton] at hrecord
    rw [honly, ← hrecord, List.map_singleton, hnew, Option.toList_some]

/-- **The outputs stream** gives an outpoint its creations, the oldest first. -/
theorem RepeatableChain.outputs (hchain : RepeatableChain chain) (o : OutPoint) :
    (withKey OutputsRecord.key o.fields (chainOutputs chain)).map OutputsRecord.newOutput =
      creations (history chain o) := by
  induction chain with
  | nil => rfl
  | cons b rest ih =>
      rw [chainOutputs, inHeightOrder, withKey, List.filter_append, List.map_append,
        withKey_blockOutputs hchain.1.ids_nodup]
      exact congrArg (· ++ _) (ih hchain.2)

/-- **The spends stream** gives an outpoint one record for each block that spends it. -/
theorem RepeatableChain.spends (hchain : RepeatableChain chain) (o : OutPoint) :
    (withKey SpendsRecord.key o.fields (chainSpends chain)).length =
      Recreation.spends (history chain o) := by
  induction chain with
  | nil => rfl
  | cons b rest ih =>
      have hblock : (withKey SpendsRecord.key o.fields (blockSpends b)).length =
          if o ∈ b.spent then 1 else 0 := by
        rw [← hchain.1.spent_nodup.count, ← blockSpends_outPoint, List.count, List.countP_map,
          List.countP_eq_length_filter]
        refine congrArg List.length (List.filter_congr fun spend _ => ?_)
        rw [SpendsRecord.key_eq, decide_eq_decide.mpr OutPoint.fields_injective.eq_iff]
        rfl
      rw [chainSpends, inHeightOrder, withKey, List.filter_append, List.length_append, hblock]
      simp only [history, Recreation.spends, decide_eq_true_eq]
      exact congrArg (· + _) (ih hchain.2)

/-- **The join** leaves an outpoint the creations that the spends do not cancel. -/
theorem RepeatableChain.emitted (hchain : RepeatableChain chain) (ram : Nat) (o : OutPoint) :
    (withKey OutputsRecord.key o.fields (chainJoin ram chain).emitted).map OutputsRecord.newOutput =
      (creations (history chain o)).drop (Recreation.spends (history chain o)) := by
  rw [joinRecords_withKey _ _ (sortBy_sorted _ _ _) (sortBy_sorted _ _ _), sortBy_stable,
    sortBy_stable, List.map_drop, hchain.outputs, hchain.spends]

/-- The creations of an outpoint climb and pay one script. -/
theorem RepeatableChain.creations_pairwise (hchain : RepeatableChain chain) (o : OutPoint) :
    (creations (history chain o)).Pairwise fun earlier later =>
      earlier.height < later.height ∧ earlier.scriptPubKey = later.scriptPubKey := by
  induction chain with
  | nil => exact List.Pairwise.nil
  | cons b rest ih =>
      rw [history, creations, List.pairwise_append]
      refine ⟨ih hchain.2, ?_, fun earlier hearlier later hlater => ?_⟩
      · rcases b.created rest.length o with _ | out
        · exact List.Pairwise.nil
        · exact List.pairwise_singleton _ _
      · have hcreated := Option.mem_toList.mp hlater
        obtain ⟨c, below, hsuffix, hcoin⟩ := mem_creations_history.mp hearlier
        have hlength := hsuffix.length_le
        rw [List.length_cons] at hlength
        refine ⟨?_, hchain.1.same_script hcreated hearlier⟩
        rw [(Block.created_fields hcoin).2, (Block.created_fields hcreated).2]
        omega

end Streams

/-! ### The rows of one outpoint -/

section Rows

variable {emitted : List OutputsRecord} {derive : DeriveOptions} {chain : Chain}

theorem valuesAt_hintRow (emitted : List OutputsRecord) (txid : Hash) (idx : Nat) :
    valuesAt (.outHint txid idx) (emitted.map hintRow) =
      ((withKey OutputsRecord.key (OutPoint.fields ⟨txid, idx⟩) emitted).map
        OutputsRecord.newOutput).map fun out => .hash out.scriptPubKey := by
  rw [valuesAt_map, withKey_outputs, List.map_map]
  refine congrArg (List.map _) (List.filter_congr fun record _ => ?_)
  rw [decide_eq_decide]
  simp [hintRow, OutputsRecord.outPoint]

/-- The sort by script leaves the rows of one script and outpoint in their order. -/
theorem valuesAt_outputRow (ram : Nat) (emitted : List OutputsRecord) (script txid : Hash)
    (idx : Nat) :
    valuesAt (.output script txid idx)
        ((sortBy ram 114 Bulk.OutputRow.key (emitted.map outputRow)).map loadOutputRow) =
      (((withKey OutputsRecord.key (OutPoint.fields ⟨txid, idx⟩) emitted).map
        OutputsRecord.newOutput).filter fun out => decide (out.scriptPubKey = script)).map
          fun out => .output out.record := by
  have hkey : ∀ rows : List Bulk.OutputRow,
      (rows.filter fun row => decide ((loadOutputRow row).1 = .output script txid idx)) =
        withKey Bulk.OutputRow.key [script.toNat, txid.toNat, idx] rows := fun rows =>
    List.filter_congr fun row _ => by
      rw [decide_eq_decide]
      simp [loadOutputRow, Bulk.OutputRow.key, BitVec.toNat_inj]
  rw [valuesAt_map, hkey, sortBy_stable, ← hkey, withKey_outputs, List.filter_map, List.filter_map,
    List.filter_filter, List.map_map, List.map_map]
  refine congrArg (List.map _) (List.filter_congr fun record _ => ?_)
  rw [Function.comp_apply, Function.comp_apply, ← Bool.decide_and, decide_eq_decide]
  simp [outputRow, loadOutputRow, OutputsRecord.newOutput, OutputsRecord.outPoint]

/-- The rows of the other families have other keys. -/
theorem valuesAt_prefixFiles (last : LastMarkers) {k : Key} (hk : k.isCoin = true) :
    valuesAt k (prefixFiles (chainKeys derive chain emitted last)).flatten =
      valuesAt k (emitted.map hintRow) ++ valuesAt k
        ((sortBy derive.ramBudgetBytes 114 Bulk.OutputRow.key (emitted.map outputRow)).map loadOutputRow) := by
  have hplain : ∀ {ρ : Type} (row : ρ → Row) (records : List ρ),
      (∀ record, (row record).1.isCoin = false) → valuesAt k (records.map row) = [] := by
    intro ρ row records hrow
    refine valuesAt_eq_nil fun entry hmem heq => ?_
    obtain ⟨record, -, rfl⟩ := List.mem_map.mp hmem
    rw [← heq, hrow] at hk
    cases hk
  have hsorted : ∀ {ρ : Type} (size : Nat) (row : ρ → Row) (records : List ρ),
      (∀ record, (row record).1.isCoin = false) →
        valuesAt k (sortBy derive.ramBudgetBytes size rowKey (records.map row)) = [] := by
    intro ρ size row records hrow
    refine valuesAt_eq_nil fun entry hmem heq => ?_
    obtain ⟨record, -, rfl⟩ := List.mem_map.mp ((mem_sortBy _ _ _).mp hmem)
    rw [← heq, hrow] at hk
    cases hk
  unfold prefixFiles chainKeys
  cases derive.txIndex <;>
    simp only [if_true, if_false, Bool.false_eq_true, List.flatten_cons, List.flatten_nil,
      valuesAt_append, List.append_nil]
  · rw [hsorted 73 blockRow _ fun _ => rfl, hsorted 33 _ _ fun _ => rfl,
      hplain scriptRow _ fun _ => rfl, hsorted 101 outBlkRow _ fun _ => rfl,
      hsorted 65 blkScriptRow _ fun _ => rfl]
    simp
  · rw [hsorted 73 blockRow _ fun _ => rfl, hsorted 33 _ _ fun _ => rfl,
      hplain scriptRow _ fun _ => rfl, hsorted 101 outBlkRow _ fun _ => rfl,
      hsorted 65 blkScriptRow _ fun _ => rfl, hplain loadTxRow _ fun _ => rfl,
      hsorted 65 txExactRow _ fun _ => rfl, hsorted 97 txBlockRecoveryRow _ fun _ => rfl]
    simp

end Rows

/-! ### The store -/

section Store

variable {chain : Chain} {opts : BulkOptions} {dumps : List Dump} {db db' : Db}

/-- What a load puts at a coin key, over a store without data. -/
theorem getElem?_loaded {b : Block} {rest : Chain} {emitted : List OutputsRecord}
    {derive : DeriveOptions} (hfresh : holdsNothingButCurrentStamp db = true) (batchSize : Nat)
    {k : Key} (hk : k.isCoin = true) :
    ((loadBatches batchSize (tipKeys derive b rest emitted)).foldl putBatch db)[k]? =
      (valuesAt k (emitted.map hintRow) ++ valuesAt k ((sortBy derive.ramBudgetBytes 114
        Bulk.OutputRow.key (emitted.map outputRow)).map loadOutputRow)).getLast? := by
  have hmarkers : valuesAt k (finalMarkers (tipKeys derive b rest emitted)) = [] := by
    refine valuesAt_eq_nil fun entry hmem heq => ?_
    obtain ⟨key, value⟩ := entry
    obtain rfl : key = k := heq
    rw [mem_finalMarkers] at hmem
    rcases hmem with ⟨rfl, -⟩ | ⟨rfl, -⟩ | ⟨rfl, -⟩ | ⟨rfl, -⟩ <;> cases hk
  have hnone : db[k]? = none := by
    rw [Option.eq_none_iff_forall_ne_some]
    rintro value hget
    obtain ⟨rfl, -⟩ := eq_stamp_of_fresh hfresh hget
    cases hk
  rw [foldl_putBatch, loadBatches_flatten, getElem?_stageAll, hnone, Option.or_none,
    valuesAt_append, hmarkers, List.append_nil, valuesAt_prefixFiles _ hk]

/-- Of coins that pay one script the last one is read back. -/
theorem getLast?_outputRows {coins : List NewOutput} (script : Hash)
    (hsame : ∀ coin ∈ coins, ∀ other ∈ coins, coin.scriptPubKey = other.scriptPubKey) :
    ((coins.filter fun out => decide (out.scriptPubKey = script)).map
      fun out => Value.output out.record).getLast? = outputValue script coins.getLast? := by
  rcases hlast : coins.getLast? with _ | last
  · rw [List.getLast?_eq_none_iff.mp hlast]
    rfl
  have hmem := List.mem_of_getLast? hlast
  rw [outputValue_some]
  by_cases hscript : last.scriptPubKey = script
  · rw [if_pos hscript, List.filter_eq_self.mpr, List.getLast?_map, hlast, Option.map_some]
    intro coin hcoin
    simpa [hsame coin hcoin last hmem] using hscript
  · rw [if_neg hscript, List.filter_eq_nil_iff.mpr]
    · rfl
    · intro coin hcoin
      simpa [hsame coin hcoin last hmem] using hscript

/-- **The bulk store**: for each outpoint it holds what the join reading of its history leaves. -/
theorem RepeatableChain.bulkSync_coins (hchain : RepeatableChain chain) (hne : chain ≠ [])
    (hdumps : CutInto chain dumps) (hrun : bulkSync opts dumps db = .ok db') :
    CoinRecords (fun k => db'[k]?) fun o => joined (history chain o) := by
  obtain ⟨b, rest, rfl⟩ := List.exists_cons_of_ne_nil hne
  have hfresh := fresh_of_bulkSync hrun
  rw [bulkSync_streams opts hdumps hfresh] at hrun
  split_ifs at hrun
  cases hrun
  refine ⟨fun txid idx => ?_, fun script txid idx => ?_⟩
  · have hother : valuesAt (.outHint txid idx) ((sortBy opts.ramBudgetBytes 114 Bulk.OutputRow.key
        ((chainJoin opts.ramBudgetBytes (b :: rest)).emitted.map outputRow)).map loadOutputRow) =
          [] := by
      refine valuesAt_eq_nil fun entry hmem => ?_
      obtain ⟨row, -, rfl⟩ := List.mem_map.mp hmem
      simp [loadOutputRow]
    rw [getElem?_loaded hfresh _ rfl, hother, List.append_nil, valuesAt_hintRow, hchain.emitted,
      List.getLast?_map]
    rfl
  · have hother : valuesAt (.output script txid idx)
        ((chainJoin opts.ramBudgetBytes (b :: rest)).emitted.map hintRow) = [] := by
      refine valuesAt_eq_nil fun entry hmem => ?_
      obtain ⟨row, -, rfl⟩ := List.mem_map.mp hmem
      simp [hintRow]
    rw [getElem?_loaded hfresh _ rfl, hother, List.nil_append, valuesAt_outputRow, hchain.emitted,
      getLast?_outputRows]
    · rfl
    have hscripts : ((creations (history (b :: rest) ⟨txid, idx⟩)).map
        NewOutput.scriptPubKey).Pairwise Eq :=
      List.pairwise_map.mpr ((hchain.creations_pairwise ⟨txid, idx⟩).imp And.right)
    have hsame := hscripts.forall_of_forall fun _ _ => rfl
    exact fun coin hcoin other hother =>
      hsame (List.mem_map_of_mem (List.mem_of_mem_drop hcoin))
        (List.mem_map_of_mem (List.mem_of_mem_drop hother))

end Store

end UtxoTracker

import UtxoTracker.Bulk.Load
import UtxoTracker.Proof.Chain
/-!
# What the parse streams hold

However a chain is cut into dumps, the concatenated streams are its blocks' records in height order.
The keys of the outputs and of the spends are distinct, so the join leaves exactly the unspent
outputs of the chain.
-/

namespace UtxoTracker

open LevelUpStore Bulk ExternalSort AntiJoin

/-! ### Blocks in height order -/

/-- The records of a chain's blocks, from height 0 up. -/
def inHeightOrder {ρ : Type} (records : Block → Nat → List ρ) : Chain → List ρ
  | [] => []
  | b :: rest => inHeightOrder records rest ++ records b rest.length

section HeightOrder

variable {ρ : Type} {records : Block → Nat → List ρ}

theorem suffix_cons_iff {chain : Chain} {c b : Block} {rest : Chain} :
    b :: rest <:+ c :: chain ↔ b = c ∧ rest = chain ∨ b :: rest <:+ chain := by
  rw [List.suffix_cons_iff, List.cons.injEq]

theorem mem_inHeightOrder {chain : Chain} {record : ρ} :
    record ∈ inHeightOrder records chain ↔
      ∃ b rest, b :: rest <:+ chain ∧ record ∈ records b rest.length := by
  induction chain with
  | nil => simp [inHeightOrder]
  | cons c chain ih =>
      rw [inHeightOrder, List.mem_append, ih]
      constructor
      · rintro (⟨b, rest, hsuffix, hmem⟩ | hmem)
        · exact ⟨b, rest, suffix_cons_iff.mpr (Or.inr hsuffix), hmem⟩
        · exact ⟨c, chain, List.suffix_rfl, hmem⟩
      · rintro ⟨b, rest, hsuffix, hmem⟩
        rcases suffix_cons_iff.mp hsuffix with ⟨rfl, rfl⟩ | hbelow
        · exact Or.inr hmem
        · exact Or.inl ⟨b, rest, hbelow, hmem⟩

theorem flatMap_zipIdx_reverse (records : Block → Nat → List ρ) (chain : Chain) :
    (chain.reverse.zipIdx.flatMap fun entry => records entry.1 entry.2) =
      inHeightOrder records chain := by
  induction chain with
  | nil => rfl
  | cons b rest ih =>
      rw [List.reverse_cons, List.zipIdx_append, List.flatMap_append, ih, inHeightOrder]
      simp

end HeightOrder

/-! ### Concatenating the files of a stream -/

section Concat

variable {ρ : Type}

theorem heights_flatMap {start : Nat} {dumps : List Dump} (hcontiguous : Contiguous start dumps) :
    dumps.flatMap Dump.heights = (dumps.flatMap Dump.blocks).zipIdx start := by
  induction dumps generalizing start with
  | nil => rfl
  | cons dump rest ih =>
      obtain ⟨hfirst, -, hrest⟩ := hcontiguous
      rw [List.flatMap_cons, List.flatMap_cons, List.zipIdx_append, ih hrest, Dump.heights, hfirst]

variable (network : Network) (magic : Magic) (recordSize : Nat) (records : Dump → List ρ)

theorem concatInto_closeFile {start : Nat} {dumps : List Dump}
    (hcontiguous : Contiguous start dumps) (output : DatFile ρ) (prevLastHeight : Nat)
    (hmagic : output.header.magic = magic) (hchain : output.header.chain = network.chain)
    (hnet : output.header.net = network.net) (hsize : output.header.recordSize = recordSize)
    (hprev : prevLastHeight + 1 = start) :
    ∃ file, concatInto output prevLastHeight
        (dumps.map fun dump => closeFile network dump magic recordSize (records dump)) = .ok file ∧
      file.body = output.body ++ dumps.flatMap records := by
  induction dumps generalizing start output prevLastHeight with
  | nil => exact ⟨output, rfl, by simp⟩
  | cons dump rest ih =>
      obtain ⟨hfirst, hblocks, hrest⟩ := hcontiguous
      have hlength := List.length_pos_iff.mpr hblocks
      have hcheck : checkInputHeader
          (closeFile network dump magic recordSize (records dump))
          (some (output.header, prevLastHeight)) = .ok () := by
        simp [checkInputHeader, closeFile, mixedField, hmagic, hchain, hnet, hsize, hfirst, hprev]
      rw [List.map_cons, concatInto, hcheck]
      obtain ⟨file, hrun, hbody⟩ := ih hrest
        { output with
          header :=
            { output.header with
              lastHeight := max output.header.lastHeight dump.lastHeight
              recordCount := output.header.recordCount + (records dump).length }
          body := output.body ++ records dump }
        dump.lastHeight hmagic hchain hnet hsize (by
          rw [Dump.lastHeight]
          omega)
      exact ⟨file, hrun, by rw [hbody, List.flatMap_cons, List.append_assoc]⟩

/-- **The files of a stream concatenate**: the ranges follow one another, and the body is theirs in
order. -/
theorem concatFilesWithHeader_closeFile {start : Nat} {dumps : List Dump} (path : String)
    (hcontiguous : Contiguous start dumps) (hne : dumps ≠ []) :
    ∃ file, concatFilesWithHeader path
        (dumps.map fun dump => closeFile network dump magic recordSize (records dump)) = .ok file ∧
      file.body = dumps.flatMap records := by
  cases dumps with
  | nil => exact absurd rfl hne
  | cons dump rest =>
      obtain ⟨hfirst, hblocks, hrest⟩ := hcontiguous
      have hlength := List.length_pos_iff.mpr hblocks
      have hcheck : checkInputHeader
          (closeFile network dump magic recordSize (records dump)) none = .ok () := by
        simp [checkInputHeader, closeFile]
      rw [List.map_cons, concatFilesWithHeader, hcheck]
      obtain ⟨file, hrun, hbody⟩ := concatInto_closeFile network magic recordSize records hrest
        { closeFile network dump magic recordSize (records dump) with path } dump.lastHeight
        rfl rfl rfl rfl (by rw [Dump.lastHeight]; omega)
      exact ⟨file, hrun, hbody⟩

end Concat

/-! ### The outputs stream -/

def chainOutputs (chain : Chain) : List OutputsRecord := inHeightOrder blockOutputs chain

def chainSpends (chain : Chain) : List SpendsRecord :=
  inHeightOrder (fun b _ => blockSpends b) chain

def chainMeta (chain : Chain) : List MetaRecord :=
  inHeightOrder (fun b height => [blockMeta b height]) chain

namespace Bulk

def OutputsRecord.outPoint (record : OutputsRecord) : OutPoint := ⟨record.txid, record.vout⟩

/-- The output a live indexer takes from the same place. -/
def OutputsRecord.newOutput (record : OutputsRecord) : NewOutput :=
  { scriptPubKey := record.scriptPubKey
    txHash := record.txid
    outputIndex := record.vout
    value := record.value
    height := record.height
    coinbase := record.coinbase }

def SpendsRecord.outPoint (record : SpendsRecord) : OutPoint := ⟨record.prevTxid, record.prevVout⟩

theorem OutputsRecord.key_eq (record : OutputsRecord) : record.key = record.outPoint.fields := rfl

theorem SpendsRecord.key_eq (record : SpendsRecord) : record.key = record.outPoint.fields := rfl

end Bulk

theorem isCoinbase_eq (tx : Tx) : isCoinbase tx = tx.isCoinbase := rfl

theorem mem_outputsOf {tx : Tx} {height : Nat} {blockHash : Hash} {record : OutputsRecord} :
    record ∈ outputsOf tx height blockHash ↔
      record.blockHash = blockHash ∧ record.height = height ∧ record.txid = tx.id ∧
        (newOutputs tx height)[record.vout]? = some record.newOutput := by
  simp only [outputsOf, List.mem_mapIdx, newOutputs_getElem?, Option.map_eq_some_iff]
  constructor
  · rintro ⟨i, hi, rfl⟩
    exact ⟨rfl, rfl, rfl, tx.outs[i], List.getElem?_eq_getElem hi, rfl⟩
  · rintro ⟨rfl, rfl, htxid, output, hget, heq⟩
    obtain ⟨hi, hget⟩ := List.getElem?_eq_some_iff.mp hget
    refine ⟨record.vout, hi, ?_⟩
    simp only [Bulk.OutputsRecord.newOutput, NewOutput.mk.injEq] at heq
    obtain ⟨hscript, -, -, hvalue, -, hcoinbase⟩ := heq
    cases record
    simp_all [isCoinbase_eq]

/-- A block's outputs records are the outputs it creates. -/
theorem mem_blockOutputs {b : Block} (hnodup : (b.transactions.map Tx.id).Nodup) {height : Nat}
    {record : OutputsRecord} :
    record ∈ blockOutputs b height ↔
      record.blockHash = b.hash ∧ record.height = height ∧
        b.created height record.outPoint = some record.newOutput := by
  rw [blockOutputs, List.mem_flatMap]
  constructor
  · rintro ⟨tx, htx, hmem⟩
    obtain ⟨hhash, hheight, htxid, hget⟩ := mem_outputsOf.mp hmem
    refine ⟨hhash, hheight, ?_⟩
    rw [OutputsRecord.outPoint, htxid, Block.created_of_mem hnodup htx, hget]
  · rintro ⟨hhash, hheight, hcreated⟩
    obtain ⟨tx, htx, hid, hget⟩ := Block.created_eq_some hcreated
    exact ⟨tx, htx, mem_outputsOf.mpr ⟨hhash, hheight, hid.symm, hget⟩⟩

theorem ValidChain.of_suffix {chain below : Chain} (hvalid : ValidChain chain)
    (hsuffix : below <:+ chain) : ValidChain below := by
  induction chain with
  | nil => rwa [List.suffix_nil.mp hsuffix]
  | cons b rest ih =>
      rcases List.suffix_cons_iff.mp hsuffix with rfl | hbelow
      · exact hvalid
      · exact ih hvalid.2 hbelow

theorem ValidChain.block_of_suffix {chain rest : Chain} {b : Block} (hvalid : ValidChain chain)
    (hsuffix : b :: rest <:+ chain) : ValidBlock rest b := (hvalid.of_suffix hsuffix).1

/-- A coin of the chain was created by one of its blocks. -/
theorem ValidChain.everCreated_eq_some {chain : Chain} (hvalid : ValidChain chain) {o : OutPoint}
    {out : NewOutput} :
    everCreated chain o = some out ↔
      ∃ b rest, b :: rest <:+ chain ∧ b.created rest.length o = some out := by
  induction chain with
  | nil => simp [everCreated, deltas, Ledger.everCreated]
  | cons c chain ih =>
      rw [everCreated_cons, Option.or_eq_some_iff, ih hvalid.2]
      constructor
      · rintro (hcreated | ⟨-, b, rest, hsuffix, hcreated⟩)
        · exact ⟨c, chain, List.suffix_rfl, hcreated⟩
        · exact ⟨b, rest, suffix_cons_iff.mpr (Or.inr hsuffix), hcreated⟩
      · rintro ⟨b, rest, hsuffix, hcreated⟩
        rcases suffix_cons_iff.mp hsuffix with ⟨rfl, rfl⟩ | hbelow
        · exact Or.inl hcreated
        · refine Or.inr ⟨?_, b, rest, hbelow, hcreated⟩
          by_contra hsome
          have hnone := hvalid.1.fresh (Option.isSome_iff_ne_none.mpr hsome)
          rw [(ih hvalid.2).mpr ⟨b, rest, hbelow, hcreated⟩] at hnone
          cases hnone

/-- **The outputs stream** holds one record for each output the chain ever created. -/
theorem ValidChain.mem_outputs {chain : Chain} (hvalid : ValidChain chain)
    {record : OutputsRecord} :
    record ∈ chainOutputs chain ↔
      ∃ b rest, b :: rest <:+ chain ∧ record.blockHash = b.hash ∧ record.height = rest.length ∧
        b.created rest.length record.outPoint = some record.newOutput := by
  rw [chainOutputs, mem_inHeightOrder]
  refine exists_congr fun b => exists_congr fun rest => and_congr_right fun hsuffix => ?_
  exact mem_blockOutputs (hvalid.block_of_suffix hsuffix).ids_nodup

theorem ValidChain.everCreated_of_outputs {chain : Chain} (hvalid : ValidChain chain)
    {record : OutputsRecord} (hmem : record ∈ chainOutputs chain) :
    everCreated chain record.outPoint = some record.newOutput := by
  obtain ⟨b, rest, hsuffix, -, -, hcreated⟩ := hvalid.mem_outputs.mp hmem
  exact hvalid.everCreated_eq_some.mpr ⟨b, rest, hsuffix, hcreated⟩

/-- An output that a block creates has a record. -/
theorem outputs_of_block {b : Block} (hnodup : (b.transactions.map Tx.id).Nodup) {height : Nat}
    {o : OutPoint} {out : NewOutput} (hcreated : b.created height o = some out) :
    ∃ record ∈ blockOutputs b height, record.outPoint = o ∧ record.newOutput = out ∧
      record.blockHash = b.hash ∧ record.height = height := by
  obtain ⟨houtPoint, hheight⟩ := Block.created_fields hcreated
  let record : OutputsRecord :=
    { txid := out.txHash
      vout := out.outputIndex
      value := out.value
      height
      scriptPubKey := out.scriptPubKey
      blockHash := b.hash
      coinbase := out.coinbase }
  have hpoint : record.outPoint = o := houtPoint
  have hnew : record.newOutput = out := by rw [OutputsRecord.newOutput, ← hheight]
  refine ⟨record, (mem_blockOutputs hnodup).mpr ⟨rfl, rfl, ?_⟩, hpoint, hnew, rfl, rfl⟩
  rw [hpoint, hnew, hcreated]

/-- An output that a block of the chain creates has a record. -/
theorem ValidChain.outputs_of_created {chain rest : Chain} {b : Block} (hvalid : ValidChain chain)
    (hsuffix : b :: rest <:+ chain) {o : OutPoint} {out : NewOutput}
    (hcreated : b.created rest.length o = some out) :
    ∃ record ∈ chainOutputs chain, record.outPoint = o ∧ record.newOutput = out ∧
      record.blockHash = b.hash ∧ record.height = rest.length := by
  obtain ⟨record, hmem, hrest⟩ :=
    outputs_of_block (hvalid.block_of_suffix hsuffix).ids_nodup hcreated
  exact ⟨record, mem_inHeightOrder.mpr ⟨b, rest, hsuffix, hmem⟩, hrest⟩

/-- A coin of the chain has a record. -/
theorem ValidChain.outputs_of_everCreated {chain : Chain} (hvalid : ValidChain chain)
    {o : OutPoint} {out : NewOutput} (hever : everCreated chain o = some out) :
    ∃ record ∈ chainOutputs chain, record.outPoint = o ∧ record.newOutput = out := by
  obtain ⟨b, rest, hsuffix, hcreated⟩ := hvalid.everCreated_eq_some.mp hever
  obtain ⟨record, hmem, hpoint, hnew, -⟩ := hvalid.outputs_of_created hsuffix hcreated
  exact ⟨record, hmem, hpoint, hnew⟩

theorem blockOutputs_nodup {b : Block} (hnodup : (b.transactions.map Tx.id).Nodup) (height : Nat) :
    ((blockOutputs b height).map OutputsRecord.outPoint).Nodup := by
  rw [blockOutputs, List.map_flatMap, List.nodup_flatMap]
  refine ⟨fun tx _ => ?_, ?_⟩
  · rw [List.Nodup, List.pairwise_iff_getElem]
    intro i j hi hj hij heq
    simp only [outputsOf, List.getElem_map, List.getElem_mapIdx, OutputsRecord.outPoint,
      OutPoint.mk.injEq] at heq
    omega
  · rw [List.Nodup, List.pairwise_map] at hnodup
    refine hnodup.imp fun hne o hfirst hsecond => hne ?_
    obtain ⟨r, hr, rfl⟩ := List.mem_map.mp hfirst
    obtain ⟨r', hr', heq⟩ := List.mem_map.mp hsecond
    rw [← (mem_outputsOf.mp hr).2.2.1, ← (mem_outputsOf.mp hr').2.2.1]
    exact (congrArg OutPoint.txid heq).symm

/-- No two outputs records name one outpoint. -/
theorem ValidChain.outputs_nodup {chain : Chain} (hvalid : ValidChain chain) :
    ((chainOutputs chain).map OutputsRecord.outPoint).Nodup := by
  induction chain with
  | nil => exact List.nodup_nil
  | cons b rest ih =>
      rw [chainOutputs, inHeightOrder, List.map_append, List.nodup_append']
      refine ⟨ih hvalid.2, blockOutputs_nodup hvalid.1.ids_nodup _, fun o hbelow habove => ?_⟩
      obtain ⟨r, hr, rfl⟩ := List.mem_map.mp hbelow
      obtain ⟨r', hr', heq⟩ := List.mem_map.mp habove
      obtain ⟨-, -, hcreated⟩ := (mem_blockOutputs hvalid.1.ids_nodup).mp hr'
      have hsome : (b.created rest.length r.outPoint).isSome := by
        rw [← heq, hcreated]
        rfl
      have hnone := hvalid.1.fresh hsome
      rw [hvalid.2.everCreated_of_outputs hr] at hnone
      cases hnone

/-! ### The spends stream -/

theorem blockSpends_outPoint (b : Block) : (blockSpends b).map SpendsRecord.outPoint = b.spent := by
  rw [blockSpends, List.map_flatMap, Block.spent]
  refine congrArg (List.flatMap · b.transactions) (funext fun tx => ?_)
  rw [spendsOf, List.map_map]
  have hfilter : (tx.ins.filter fun input =>
      !(decide (input.index = coinbaseIndex) || !input.standardInput)) =
        tx.ins.filter TxIn.spends := by
    refine List.filter_congr fun input _ => ?_
    rw [TxIn.spends]
    cases input.standardInput <;> simp
  rw [hfilter]
  rfl

theorem mem_chainSpends_outPoint {chain : Chain} {o : OutPoint} :
    o ∈ (chainSpends chain).map SpendsRecord.outPoint ↔ ∃ c ∈ chain, o ∈ c.spent := by
  induction chain with
  | nil => simp [chainSpends, inHeightOrder]
  | cons b rest ih =>
      rw [chainSpends, inHeightOrder, List.map_append, List.mem_append, blockSpends_outPoint]
      rw [chainSpends] at ih
      rw [ih, List.exists_mem_cons_iff]
      exact Or.comm

/-- No coin is spent twice. -/
theorem ValidChain.spends_nodup {chain : Chain} (hvalid : ValidChain chain) :
    ((chainSpends chain).map SpendsRecord.outPoint).Nodup := by
  induction chain with
  | nil => exact List.nodup_nil
  | cons b rest ih =>
      rw [chainSpends, inHeightOrder, List.map_append, List.nodup_append', blockSpends_outPoint]
      refine ⟨ih hvalid.2, hvalid.1.spent_nodup, fun o hbelow habove => ?_⟩
      obtain ⟨c, hc, hspent⟩ := mem_chainSpends_outPoint.mp hbelow
      rcases hvalid.1.spendable o habove with hcreated | hutxo
      · have hsome := hvalid.2.everCreated_of_spent hc hspent
        rw [hvalid.1.fresh hcreated] at hsome
        cases hsome
      · obtain ⟨out, hout⟩ := Option.isSome_iff_exists.mp hutxo
        exact (hvalid.2.utxo_eq_some.mp hout).2 c hc hspent

/-! ### Sorting and joining -/

section Sorting

variable {ρ : Type} {key : ρ → List Nat} (ramBudgetBytes recordSize : Nat) (records : List ρ)

theorem sortBy_perm : (sortBy ramBudgetBytes recordSize key records).Perm records :=
  (externalSort_spec _ records).1

theorem sortBy_sorted :
    (sortBy ramBudgetBytes recordSize key records).Pairwise fun a b => key a ≤ key b :=
  (externalSort_spec _ records).2

@[simp] theorem mem_sortBy {record : ρ} :
    record ∈ sortBy ramBudgetBytes recordSize key records ↔ record ∈ records :=
  (sortBy_perm ramBudgetBytes recordSize records).mem_iff

/-- Records of one key keep their order. -/
theorem sortBy_stable (k : List Nat) :
    withKey key k (sortBy ramBudgetBytes recordSize key records) = withKey key k records :=
  externalSort_stable _ records k

variable {records}

/-- Distinct keys come out in strict order. -/
theorem sortBy_strict (hnodup : (records.map key).Nodup) :
    (sortBy ramBudgetBytes recordSize key records).Pairwise fun a b => key a < key b := by
  have hdistinct : (sortBy ramBudgetBytes recordSize key records).Pairwise fun a b =>
      key a ≠ key b :=
    List.pairwise_map.mp
      (((sortBy_perm ramBudgetBytes recordSize records).map key).nodup_iff.mpr hnodup)
  exact (sortBy_sorted ramBudgetBytes recordSize records).imp₂
    (fun _ _ hle hne => lt_of_le_of_ne hle hne) hdistinct

end Sorting

/-- **The join** leaves the unspent outputs, and finds no orphan spend. -/
theorem ValidChain.join {chain : Chain} (hvalid : ValidChain chain) (ram : Nat) :
    let joined := joinRecords OutputsRecord.key SpendsRecord.key
      (sortBy ram outputsRecordSize OutputsRecord.key (chainOutputs chain))
      (sortBy ram spendsRecordSize SpendsRecord.key (chainSpends chain))
    joined.orphanSpends = 0 ∧
      ∀ record, record ∈ joined.emitted ↔
        record ∈ chainOutputs chain ∧ utxo chain record.outPoint = some record.newOutput := by
  have houtputs : ((chainOutputs chain).map OutputsRecord.key).Nodup := by
    have hnodup := hvalid.outputs_nodup.map OutPoint.fields_injective
    rwa [List.map_map] at hnodup
  have hspends : ((chainSpends chain).map SpendsRecord.key).Nodup := by
    have hnodup := hvalid.spends_nodup.map OutPoint.fields_injective
    rwa [List.map_map] at hnodup
  obtain ⟨hemitted, horphans⟩ := joinRecords_spec _ _
    (sortBy_strict ram outputsRecordSize houtputs) (sortBy_strict ram spendsRecordSize hspends)
  have hspent : ∀ o : OutPoint,
      o.fields ∈ (sortBy ram spendsRecordSize SpendsRecord.key (chainSpends chain)).map
        SpendsRecord.key ↔ ∃ c ∈ chain, o ∈ c.spent := by
    intro o
    rw [← mem_chainSpends_outPoint]
    simp only [List.mem_map, mem_sortBy, SpendsRecord.key_eq,
      OutPoint.fields_injective.eq_iff]
  refine ⟨?_, fun record => ?_⟩
  · rw [horphans, List.length_eq_zero_iff, List.filter_eq_nil_iff]
    intro spend hmem
    rw [mem_sortBy] at hmem
    obtain ⟨c, hc, hin⟩ := mem_chainSpends_outPoint.mp (List.mem_map_of_mem hmem)
    obtain ⟨out, hout⟩ := Option.isSome_iff_exists.mp (hvalid.everCreated_of_spent hc hin)
    obtain ⟨record, hrecord, houtPoint, -⟩ := hvalid.outputs_of_everCreated hout
    simp only [decide_not, Bool.not_eq_true', decide_eq_false_iff_not, not_not, List.mem_map,
      mem_sortBy]
    exact ⟨record, hrecord, by rw [OutputsRecord.key_eq, houtPoint, SpendsRecord.key_eq]⟩
  · simp only [hemitted, List.mem_filter, mem_sortBy, decide_eq_true_eq]
    refine and_congr_right fun hmem => ?_
    rw [OutputsRecord.key_eq, hspent, hvalid.utxo_eq_some]
    simp [hvalid.everCreated_of_outputs hmem]

end UtxoTracker

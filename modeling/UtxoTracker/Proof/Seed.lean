import UtxoTracker.Proof.Rows
/-!
# The store a bulk load leaves

The derived rows and the final markers, put over an empty store, make a durable store of the chain
whose blocks are all seeded.
-/

namespace UtxoTracker

open KeyedStore LevelUpStore Bulk Provenance Chunks AntiJoin

/-! ### Loading -/

section Load

variable {keys : DerivedKeys} {db : Db}

theorem putBatch_eq (batch : List Row) : putBatch db batch = stageAll batch db := rfl

/-- The batches one after another are one list of puts. -/
theorem foldl_putBatch (batches : List (List Row)) :
    batches.foldl putBatch db = stageAll batches.flatten db := by
  induction batches generalizing db with
  | nil => rfl
  | cons batch rest ih =>
      rw [List.foldl_cons, ih, List.flatten_cons, stageAll_append, putBatch_eq]

theorem loadBatches_flatten (batchSize : Nat) :
    (loadBatches batchSize keys).flatten = (prefixFiles keys).flatten ++ finalMarkers keys := by
  rw [loadBatches, List.flatten_append, List.flatten_singleton]
  refine congrArg (· ++ finalMarkers keys) ?_
  induction prefixFiles keys with
  | nil => rfl
  | cons rows rest ih =>
      rw [List.flatMap_cons, List.flatten_append, flatten_chunks, ih, List.flatten_cons]

/-- A store that a load may start on holds at most the stamp. -/
theorem eq_stamp_of_fresh (hfresh : holdsNothingButCurrentStamp db = true) {k : Key} {value : Value}
    (hget : db[k]? = some value) : k = .layoutVersion ∧ value = .text "2" := by
  have hmem : (k, value) ∈ db.toList := Std.ExtTreeMap.mem_toList_iff_getElem?_eq_some.mpr hget
  unfold holdsNothingButCurrentStamp at hfresh
  split at hfresh
  · next hnil =>
      rw [hnil] at hmem
      cases hmem
  · next hone =>
      rw [hone, List.mem_singleton] at hmem
      obtain ⟨rfl, rfl⟩ := Prod.mk.inj hmem
      simpa using hfresh
  · cases hfresh

end Load

/-! ### The rows of a chain -/

section Rows

variable {chain : Chain} {opts : DeriveOptions} {emitted : List OutputsRecord}

/-- The lowest height of the window, as the passes compute it. -/
theorem wMinHeight_eq (b : Block) (rest : Chain) (undoBlocks : Nat) :
    (max 0 ((((chainMeta (b :: rest)).getLast?).map fun blk => (blk.height : Int)).getD (-1)
      - undoBlocks + 1)).toNat = (b :: rest).length - undoBlocks := by
  have hlast : (chainMeta (b :: rest)).getLast? = some (blockMeta b rest.length) := by
    rw [chainMeta, inHeightOrder, List.getLast?_concat]
  rw [hlast]
  simp only [Option.map_some, Option.getD_some, blockMeta, List.length_cons]
  omega

theorem mem_prefixFiles {keys : DerivedKeys} {row : Row} :
    row ∈ (prefixFiles keys).flatten ↔
      row ∈ keys.B ∨ row ∈ keys.H ∨ row ∈ keys.N ∨ row ∈ keys.O.map loadOutputRow ∨
        row ∈ keys.S ∨ row ∈ keys.W ∨ row ∈ keys.Z ∨
        ∃ files, keys.txIndexFiles = some files ∧
          (row ∈ files.T.map loadTxRow ∨ row ∈ files.X ∨ row ∈ files.Y) := by
  unfold prefixFiles
  cases keys.txIndexFiles with
  | none => simp
  | some files =>
      simp only [List.flatten_cons, List.flatten_nil, List.append_nil, List.mem_append,
        Option.some.injEq, exists_eq_left']
      tauto

/-- The keys a derive makes of the streams of a chain. -/
def chainKeys (opts : DeriveOptions) (chain : Chain) (emitted : List OutputsRecord)
    (last : LastMarkers) : DerivedKeys :=
  let ram := opts.ramBudgetBytes
  let inWindow := fun height : Nat => decide (chain.length - opts.undoBlocks ≤ height)
  let firsts := firstOfRuns OutputsRecord.txid none (chainOutputs chain)
  let firstSeen := firstSeenCandidates ram (chainOutputs chain)
  { B := sortBy ram 73 rowKey ((chainMeta chain).map blockRow)
    H := emitted.map hintRow
    N := sortBy ram 33 rowKey ((nWindow opts.undoBlocks (chainMeta chain)).map fun hash =>
      (.storedBlk hash, .empty))
    O := sortBy ram 114 OutputRow.key (emitted.map outputRow)
    S := firstSeen.map scriptRow
    W := sortBy ram 101 rowKey
      (((chainOutputs chain).filter fun record => inWindow record.height).map outBlkRow)
    Z := sortBy ram 65 rowKey
      ((firstSeen.filter fun candidate => inWindow candidate.height).map blkScriptRow)
    txIndexFiles :=
      if opts.txIndex then
        some
          { T := sortBy ram 101 TxRow.key (firsts.map txRow)
            X := sortBy ram 65 rowKey (firsts.map txExactRow)
            Y := sortBy ram 97 rowKey
              ((firsts.filter fun record => inWindow record.height).map txBlockRecoveryRow) }
      else none
    L := last }

/-- **The derive of a chain's streams** gives its keys, unless the outputs outnumber their row
ids. -/
theorem deriveKeys_chain {b : Block} {rest : Chain} :
    deriveKeys opts (chainMeta (b :: rest)) (chainOutputs (b :: rest)) emitted =
      if 0xFFFFFFFF + 1 < (chainOutputs (b :: rest)).length then
        .error (.rowIdOverflow (0xFFFFFFFF + 1))
      else .ok (chainKeys opts (b :: rest) emitted ⟨rest.length, b.hash, opts.txIndex⟩) := by
  have hlast : (chainMeta (b :: rest)).getLast? = some (blockMeta b rest.length) := by
    rw [chainMeta, inHeightOrder, List.getLast?_concat]
  have hmin := wMinHeight_eq b rest opts.undoBlocks
  unfold deriveKeys
  dsimp only
  rw [hmin, hlast]
  split
  · rfl
  · rfl

theorem chainKeys_window {last : LastMarkers} :
    (chainKeys opts chain emitted last).N.length = min opts.undoBlocks chain.length := by
  simp only [chainKeys, (sortBy_perm _ _ _).length_eq, List.length_map, nWindow_chainMeta,
    List.length_reverse, windowOf, List.length_take]

/-- The rows that can hold a key, by its family. -/
def familyRows (opts : DeriveOptions) (chain : Chain) (emitted : List OutputsRecord) :
    Key → List Row
  | .block _ => (chainMeta chain).map blockRow
  | .outHint _ _ => emitted.map hintRow
  | .storedBlk _ =>
      (nWindow opts.undoBlocks (chainMeta chain)).map fun hash => (.storedBlk hash, .empty)
  | .output _ _ _ => (emitted.map outputRow).map loadOutputRow
  | .scriptBlk _ => (firstSeenCandidates opts.ramBudgetBytes (chainOutputs chain)).map scriptRow
  | .outBlk _ _ _ =>
      ((chainOutputs chain).filter fun record =>
        chain.length - opts.undoBlocks ≤ record.height).map outBlkRow
  | .blkScript _ _ =>
      ((firstSeenCandidates opts.ramBudgetBytes (chainOutputs chain)).filter fun candidate =>
        chain.length - opts.undoBlocks ≤ candidate.height).map blkScriptRow
  | .tx _ =>
      if opts.txIndex then
        ((firstOfRuns OutputsRecord.txid none (chainOutputs chain)).map txRow).map loadTxRow
      else []
  | .txExact _ =>
      if opts.txIndex then
        (firstOfRuns OutputsRecord.txid none (chainOutputs chain)).map txExactRow
      else []
  | .txBlockRecovery _ _ =>
      if opts.txIndex then
        ((firstOfRuns OutputsRecord.txid none (chainOutputs chain)).filter fun record =>
          chain.length - opts.undoBlocks ≤ record.height).map txBlockRecoveryRow
      else []
  | _ => []

theorem mem_chainKeys (last : LastMarkers) (k : Key) (value : Value) :
    (k, value) ∈ (prefixFiles (chainKeys opts chain emitted last)).flatten ↔
      (k, value) ∈ familyRows opts chain emitted k := by
  have hload : ∀ {ρ : Type} (size : Nat) (key : ρ → List Nat) (rows : List ρ) (load : ρ → Row)
      (row : Row), row ∈ (sortBy opts.ramBudgetBytes size key rows).map load ↔
        row ∈ rows.map load := by simp [List.mem_map]
  rw [mem_prefixFiles]
  simp only [chainKeys, mem_sortBy, hload]
  cases hindex : opts.txIndex <;> cases k <;>
    simp [familyRows, hindex, blockRow, hintRow, loadOutputRow, outputRow, scriptRow, outBlkRow,
      blkScriptRow, loadTxRow, txRow, txExactRow, txBlockRecoveryRow]

/-- A bulk load without the tx index has no transaction of its chain in it. -/
theorem bulk_not_indexed {b : Block} {rest : Chain} (hsuffix : b :: rest <:+ chain) :
    (Provenance.bulk chain.length false).indexed rest.length = false := by
  have hlength := hsuffix.length_le
  rw [List.length_cons] at hlength
  simp [indexed, Provenance.bulk]
  omega

/-- A bulk load archives no spend of its chain. -/
theorem bulk_archived {b : Block} {rest : Chain} (hsuffix : b :: rest <:+ chain) (txIndex : Bool)
    (o : OutPoint) : (Provenance.bulk chain.length txIndex).archived b rest o = none := by
  have hlength := hsuffix.length_le
  rw [List.length_cons] at hlength
  rw [archived, if_pos]
  simp [Provenance.bulk]
  omega

/-- **The rows are the reference record** of a seeded chain. -/
theorem ValidChain.mem_familyRows (hvalid : ValidChain chain)
    (hemitted : ∀ record, record ∈ emitted ↔
      record ∈ chainOutputs chain ∧ utxo chain record.outPoint = some record.newOutput)
    (k : Key) (value : Value) (hmeta : k.isMeta = false) :
    (k, value) ∈ familyRows opts chain emitted k ↔
      (Provenance.bulk chain.length opts.txIndex).record chain (windowOf chain opts.undoBlocks) k =
        some value := by
  have hlost : (Provenance.bulk chain.length opts.txIndex).lost = ∅ := rfl
  cases k with
  | block hash => exact hvalid.mem_blockRow
  | outHint txid idx => exact hvalid.mem_hintRow hemitted hlost
  | output script txid idx => exact hvalid.mem_outputRow hemitted hlost
  | storedBlk hash => exact mem_storedBlkRow
  | scriptBlk script => exact hvalid.mem_scriptRow _
  | outBlk hash txid idx => exact hvalid.mem_outBlkRow
  | blkScript hash script => exact hvalid.mem_blkScriptRow _
  | tx txid =>
      simp only [familyRows]
      split
      · next hindex => exact hvalid.mem_txRow hindex
      · next hindex =>
          refine iff_of_false (List.not_mem_nil) fun hsome => ?_
          simp only [record, Option.bind_eq_some_iff, Prod.exists, hvalid.txBlock_iff] at hsome
          obtain ⟨b, rest, ⟨hsuffix, -⟩, hsome⟩ := hsome
          rw [Bool.eq_false_of_not_eq_true hindex, bulk_not_indexed hsuffix] at hsome
          cases hsome
  | txExact txid =>
      simp only [familyRows]
      split
      · next hindex => exact hvalid.mem_txExactRow hindex
      · next hindex =>
          refine iff_of_false (List.not_mem_nil) fun hsome => ?_
          simp only [record, Option.bind_eq_some_iff, Prod.exists, hvalid.txBlock_iff] at hsome
          obtain ⟨b, rest, ⟨hsuffix, -⟩, hsome⟩ := hsome
          rw [Bool.eq_false_of_not_eq_true hindex, bulk_not_indexed hsuffix] at hsome
          cases hsome
  | txBlockRecovery hash txid =>
      simp only [familyRows]
      split
      · next hindex => exact hvalid.mem_txBlockRecoveryRow hindex
      · next hindex =>
          refine iff_of_false (List.not_mem_nil) fun hsome => ?_
          rw [record, hvalid.windowRecord_eq_some] at hsome
          obtain ⟨b, rest, hsuffix, -, -, hsome⟩ := hsome
          rw [undoRecord, Bool.eq_false_of_not_eq_true hindex, bulk_not_indexed hsuffix] at hsome
          simp at hsome
  | outDel hash script txid idx =>
      refine iff_of_false (List.not_mem_nil) fun hsome => ?_
      rw [record, hvalid.windowRecord_eq_some] at hsome
      obtain ⟨b, rest, hsuffix, -, -, hsome⟩ := hsome
      rw [undoRecord, bulk_archived hsuffix] at hsome
      cases hsome
  | hintDel hash txid idx =>
      refine iff_of_false (List.not_mem_nil) fun hsome => ?_
      rw [record, hvalid.windowRecord_eq_some] at hsome
      obtain ⟨b, rest, hsuffix, -, -, hsome⟩ := hsome
      rw [undoRecord, bulk_archived hsuffix] at hsome
      cases hsome
  | input _ _ | inHint _ _ _ => exact iff_of_false (List.not_mem_nil) (by simp [record])
  | _ => cases hmeta

end Rows

/-! ### The pipeline on a chain -/

section Pipeline

variable {chain : Chain} {opts : BulkOptions} {dumps : List Dump} {db : Db}

/-- The seeded store of a chain: every row of it, the tip, the stamp and the watermark. -/
structure SeededStore (chain : Chain) (undoBlocks : Nat) (txIndex : Bool) (db : Db) : Prop where
  durable : Durable (Provenance.bulk chain.length txIndex) chain (min undoBlocks chain.length) db
  watermark : db[Key.undoWatermark]? =
    if 0 < min undoBlocks chain.length then some (.decimalText (min undoBlocks chain.length))
    else none
  noPending : db[Key.pendingCleanup]? = none
  noHalt : db[Key.haltMarker]? = none

theorem windowOf_min (chain : Chain) (depth : Nat) :
    windowOf chain (min depth chain.length) = windowOf chain depth := by
  rw [windowOf, windowOf, ← List.take_take, List.take_length]

section Store

variable {b : Block} {rest : Chain} {emitted : List OutputsRecord} {derive : DeriveOptions}

/-- The keys derived from a chain with the tip `b`. -/
abbrev tipKeys (derive : DeriveOptions) (b : Block) (rest : Chain) (emitted : List OutputsRecord) :
    DerivedKeys :=
  chainKeys derive (b :: rest) emitted ⟨rest.length, b.hash, derive.txIndex⟩

theorem mem_finalMarkers {k : Key} {value : Value} :
    (k, value) ∈ finalMarkers (tipKeys derive b rest emitted) ↔
      k = .lastBlockHeight ∧ value = .hexText rest.length ∨
      k = .lastBlockHash ∧ value = .hashText b.hash ∨ k = .layoutVersion ∧ value = .text "2" ∨
      k = .undoWatermark ∧ 0 < min derive.undoBlocks (b :: rest).length ∧
        value = .decimalText (min derive.undoBlocks (b :: rest).length) := by
  rw [finalMarkers, chainKeys_window]
  generalize min derive.undoBlocks (b :: rest).length = depth
  split
  · next hpos => simp [chainKeys, hpos]
  · next hpos => simp [chainKeys, hpos]

/-- Before the last batch a loaded store has the records of the chain. -/
theorem ValidChain.getElem?_rows (hvalid : ValidChain chain)
    (hemitted : ∀ record, record ∈ emitted ↔
      record ∈ chainOutputs chain ∧ utxo chain record.outPoint = some record.newOutput)
    (hfresh : holdsNothingButCurrentStamp db = true) (last : LastMarkers) {k : Key}
    (hmeta : k.isMeta = false) :
    (stageAll (prefixFiles (chainKeys derive chain emitted last)).flatten db)[k]? =
      (Provenance.bulk chain.length derive.txIndex).record chain
        (windowOf chain derive.undoBlocks) k := by
  have hmem : ∀ value, (k, value) ∈ (prefixFiles (chainKeys derive chain emitted last)).flatten ↔
      (Provenance.bulk chain.length derive.txIndex).record chain
        (windowOf chain derive.undoBlocks) k = some value := by
    intro value
    rw [mem_chainKeys, hvalid.mem_familyRows hemitted k value hmeta]
  cases hrecord : (Provenance.bulk chain.length derive.txIndex).record chain
      (windowOf chain derive.undoBlocks) k with
  | none =>
      simp only [hrecord, reduceCtorEq, iff_false] at hmem
      rw [getElem?_stageAll_of_notMem hmem, Option.eq_none_iff_forall_ne_some]
      intro value hget
      obtain ⟨rfl, -⟩ := eq_stamp_of_fresh hfresh hget
      cases hmeta
  | some value =>
      simp only [hrecord, Option.some.injEq] at hmem
      exact getElem?_stageAll_of_mem ((hmem value).mpr rfl)
        (fun value' hmem' => ((hmem value').mp hmem').symm) _

/-- Before the last batch a loaded store has no housekeeping record but a stamp. -/
theorem getElem?_rows_meta (hfresh : holdsNothingButCurrentStamp db = true) (last : LastMarkers)
    {k : Key} (hmeta : k.isMeta = true) (hstamp : k ≠ .layoutVersion) :
    (stageAll (prefixFiles (chainKeys derive chain emitted last)).flatten db)[k]? = none := by
  have habsent : ∀ value,
      (k, value) ∉ (prefixFiles (chainKeys derive chain emitted last)).flatten := by
    intro value hmem
    rw [mem_chainKeys] at hmem
    cases k <;> first | exact List.not_mem_nil hmem | cases hmeta
  rw [getElem?_stageAll_of_notMem habsent, Option.eq_none_iff_forall_ne_some]
  exact fun value hget => hstamp (eq_stamp_of_fresh hfresh hget).1

/-- **A loaded store** holds the reference record of its chain, its tip and the stamp. -/
theorem ValidChain.seededStore (hvalid : ValidChain (b :: rest))
    (hemitted : ∀ record, record ∈ emitted ↔ record ∈ chainOutputs (b :: rest) ∧
      utxo (b :: rest) record.outPoint = some record.newOutput)
    (hfresh : holdsNothingButCurrentStamp db = true) (batchSize : Nat) :
    SeededStore (b :: rest) derive.undoBlocks derive.txIndex
      ((loadBatches batchSize (tipKeys derive b rest emitted)).foldl putBatch db) := by
  rw [foldl_putBatch, loadBatches_flatten, stageAll_append]
  have hput : ∀ {k value}, (k, value) ∈ finalMarkers (tipKeys derive b rest emitted) →
      (stageAll (finalMarkers (tipKeys derive b rest emitted))
        (stageAll (prefixFiles (tipKeys derive b rest emitted)).flatten db))[k]? = some value := by
    intro k value hmem
    refine getElem?_stageAll_of_mem hmem (fun value' hmem' => ?_) _
    rw [mem_finalMarkers] at hmem hmem'
    rcases hmem with ⟨rfl, rfl⟩ | ⟨rfl, rfl⟩ | ⟨rfl, rfl⟩ | ⟨rfl, -, rfl⟩
    · simpa using hmem'
    · simpa using hmem'
    · simpa using hmem'
    · simp only [reduceCtorEq, false_and, false_or, true_and] at hmem'
      exact hmem'.2
  -- A key that is no marker keeps what the rows put.
  have hplain : ∀ {k : Key},
      (∀ value, (k, value) ∉ finalMarkers (tipKeys derive b rest emitted)) →
      (stageAll (finalMarkers (tipKeys derive b rest emitted))
        (stageAll (prefixFiles (tipKeys derive b rest emitted)).flatten db))[k]? =
          (stageAll (prefixFiles (tipKeys derive b rest emitted)).flatten db)[k]? :=
    fun habsent => getElem?_stageAll_of_notMem habsent _
  refine ⟨⟨hvalid, ⟨le_rfl, fun o hlost => ?_, fun hash hmem => mem_windowOf hmem⟩,
    fun k hmeta => ?_, ⟨hput (mem_finalMarkers.mpr (by simp)),
      hput (mem_finalMarkers.mpr (by simp))⟩, hput (mem_finalMarkers.mpr (by simp)),
    fun value hget => ?_, Nat.min_le_right _ _⟩, ?_, ?_, ?_⟩
  · cases hlost
  · rw [windowOf_min, hplain fun value hmem => ?_]
    · exact hvalid.getElem?_rows hemitted hfresh _ hmeta
    · rw [mem_finalMarkers] at hmem
      rcases hmem with ⟨rfl, -⟩ | ⟨rfl, -⟩ | ⟨rfl, -⟩ | ⟨rfl, -⟩ <;> cases hmeta
  · rw [hplain fun value hmem => ?_, getElem?_rows_meta hfresh _ rfl (by simp)] at hget
    · cases hget
    · simp [mem_finalMarkers] at hmem
  · split
    · next hpos => exact hput (mem_finalMarkers.mpr (by simp only [hpos, true_and]; simp))
    · next hpos =>
        rw [hplain fun value hmem => ?_]
        · exact getElem?_rows_meta hfresh _ rfl (by simp)
        · simp only [mem_finalMarkers, hpos, false_and, and_false, or_false] at hmem
          simp at hmem
  · rw [hplain fun value hmem => ?_]
    · exact getElem?_rows_meta hfresh _ rfl (by simp)
    · simp [mem_finalMarkers] at hmem
  · rw [hplain fun value hmem => ?_]
    · exact getElem?_rows_meta hfresh _ rfl (by simp)
    · simp [mem_finalMarkers] at hmem

end Store

/-- The join of a chain's sorted streams. -/
abbrev chainJoin (ram : Nat) (chain : Chain) : JoinResult OutputsRecord :=
  joinRecords OutputsRecord.key SpendsRecord.key
    (sortBy ram outputsRecordSize OutputsRecord.key (chainOutputs chain))
    (sortBy ram spendsRecordSize SpendsRecord.key (chainSpends chain))

/-- **The merge of a chain's streams**, whatever its blocks are. -/
theorem phaseMerge_streams (opts : BulkOptions) {b : Block} {rest : Chain}
    (hdumps : CutInto (b :: rest) dumps) :
    phaseMerge opts (dumps.map (parseOutputs opts.network))
        (dumps.map (parseSpends opts.network)) (dumps.map (parseMeta opts.network)) =
      if 0 < (chainJoin opts.ramBudgetBytes (b :: rest)).orphanSpends then
        .error (.orphanSpends (chainJoin opts.ramBudgetBytes (b :: rest)).orphanSpends)
      else if 0xFFFFFFFF + 1 < (chainOutputs (b :: rest)).length then
        .error (.derive (.rowIdOverflow (0xFFFFFFFF + 1)))
      else .ok (tipKeys opts.toDeriveOptions b rest
        (chainJoin opts.ramBudgetBytes (b :: rest)).emitted) := by
  have hsome : dumps ≠ [] := by
    rintro rfl
    simpa using hdumps.blocks
  have hstream : ∀ {ρ : Type} (records : Block → Nat → List ρ),
      (dumps.flatMap fun dump => dump.heights.flatMap fun entry => records entry.1 entry.2) =
        inHeightOrder records (b :: rest) := by
    intro ρ records
    rw [← List.flatMap_assoc, heights_flatMap hdumps.contiguous, hdumps.blocks,
      flatMap_zipIdx_reverse]
  obtain ⟨outputs, houtputs, houtputsBody⟩ := concatFilesWithHeader_closeFile opts.network .outputs
    outputsRecordSize (fun dump => dump.heights.flatMap fun entry => blockOutputs entry.1 entry.2)
    "all-outputs.dat" hdumps.contiguous hsome
  obtain ⟨spends, hspends, hspendsBody⟩ := concatFilesWithHeader_closeFile opts.network .spends
    spendsRecordSize (fun dump => dump.heights.flatMap fun entry => blockSpends entry.1)
    "all-spends.dat" hdumps.contiguous hsome
  obtain ⟨blocks, hblocks, hblocksBody⟩ := concatFilesWithHeader_closeFile opts.network .blockMeta 0
    (fun dump => dump.heights.map fun entry => blockMeta entry.1 entry.2)
    "all-meta.dat" hdumps.contiguous hsome
  have hmetaBody : blocks.body = chainMeta (b :: rest) := by
    rw [hblocksBody, chainMeta, ← hstream fun b height => [blockMeta b height]]
    exact congrArg (List.flatMap · dumps) (funext fun dump => List.map_eq_flatMap)
  have houtputsChain : outputs.body = chainOutputs (b :: rest) :=
    houtputsBody.trans (hstream blockOutputs)
  have hspendsChain : spends.body = chainSpends (b :: rest) :=
    hspendsBody.trans (hstream fun b _ => blockSpends b)
  unfold phaseMerge
  have hfiles : dumps.map (parseOutputs opts.network) = dumps.map fun dump =>
      closeFile opts.network dump .outputs outputsRecordSize
        (dump.heights.flatMap fun entry => blockOutputs entry.1 entry.2) := rfl
  have hfiles' : dumps.map (parseSpends opts.network) = dumps.map fun dump =>
      closeFile opts.network dump .spends spendsRecordSize
        (dump.heights.flatMap fun entry => blockSpends entry.1) := rfl
  have hfiles'' : dumps.map (parseMeta opts.network) = dumps.map fun dump =>
      closeFile opts.network dump .blockMeta 0
        (dump.heights.map fun entry => blockMeta entry.1 entry.2) := rfl
  rw [hfiles, hfiles', hfiles'', houtputs, hspends, hblocks]
  simp only [Except.mapError, bind, Except.bind, houtputsChain, hspendsChain, hmetaBody]
  rw [deriveKeys_chain]
  by_cases horphans : 0 < (chainJoin opts.ramBudgetBytes (b :: rest)).orphanSpends
  · rw [if_pos horphans, if_pos horphans]
  · rw [if_neg horphans, if_neg horphans]
    by_cases hmany : 0xFFFFFFFF + 1 < (chainOutputs (b :: rest)).length
    · rw [if_pos hmany, if_pos hmany]
    · rw [if_neg hmany, if_neg hmany]

/-- **The bulk pipeline on a chain's streams**, whatever its blocks are. -/
theorem bulkSync_streams (opts : BulkOptions) {b : Block} {rest : Chain}
    (hdumps : CutInto (b :: rest) dumps) (hfresh : holdsNothingButCurrentStamp db = true) :
    bulkSync opts dumps db =
      if 0 < (chainJoin opts.ramBudgetBytes (b :: rest)).orphanSpends then
        .error (.orphanSpends (chainJoin opts.ramBudgetBytes (b :: rest)).orphanSpends)
      else if 0xFFFFFFFF + 1 < (chainOutputs (b :: rest)).length then
        .error (.derive (.rowIdOverflow (0xFFFFFFFF + 1)))
      else .ok ((loadBatches opts.batchSize (tipKeys opts.toDeriveOptions b rest
        (chainJoin opts.ramBudgetBytes (b :: rest)).emitted)).foldl putBatch db) := by
  unfold bulkSync
  rw [phaseMerge_streams opts hdumps]
  split
  · rfl
  · split
    · rfl
    · simp only [Except.mapError, bind, Except.bind, loadKeys, if_pos hfresh]

/-- **The bulk pipeline** seeds the store of its chain, however the chain is cut and sorted. It
refuses a chain whose outputs outnumber the row ids. -/
theorem bulkSync_chain (opts : BulkOptions) (hvalid : ValidChain chain) (hne : chain ≠ [])
    (hdumps : CutInto chain dumps) (hfresh : holdsNothingButCurrentStamp db = true) :
    if 0xFFFFFFFF + 1 < (chainOutputs chain).length then
      bulkSync opts dumps db = .error (.derive (.rowIdOverflow (0xFFFFFFFF + 1)))
    else ∃ db', bulkSync opts dumps db = .ok db' ∧
      SeededStore chain opts.undoBlocks opts.txIndex db' := by
  obtain ⟨b, rest, rfl⟩ := List.exists_cons_of_ne_nil hne
  obtain ⟨horphans, hemitted⟩ := hvalid.join opts.ramBudgetBytes
  have hrun := bulkSync_streams opts hdumps hfresh
  rw [if_neg fun hpos => absurd horphans (Nat.pos_iff_ne_zero.mp hpos)] at hrun
  split
  · next hmany => rw [hrun, if_pos hmany]
  · next hfew =>
      rw [hrun, if_neg hfew]
      exact ⟨_, rfl, hvalid.seededStore hemitted hfresh opts.batchSize⟩

end Pipeline

end UtxoTracker

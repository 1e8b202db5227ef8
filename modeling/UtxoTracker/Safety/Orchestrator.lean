import UtxoTracker.Proof.Orchestrator
import UtxoTracker.Safety.ReorgSafety
import UtxoTracker.Safety.ResumedRun
/-!
# Leftovers of other runs

A run whose leftovers are harmless loads what a run on an empty work directory loads. The parse does
not ask which chain or which run its finished files come from, so other leftovers show.
-/

namespace UtxoTracker

namespace Bulk

/-- **Harmless leftovers do not show.** A run that reports success on them loads what the same run
loads that starts on an empty work directory, and that run can load nothing else. -/
theorem loads_as_from_empty {args : SeedArgs} {chain : Chain} {w : WorkFiles} {db db₁ : Db}
    (hharmless : w.HarmlessTo args chain) (hrun : Succeeds args chain w db db₁) :
    ∀ db₂, Succeeds args chain .empty db db₂ ↔ db₂ = db₁ := by
  obtain ⟨start, dumpEnd, keys, hrange, hkeys, hload⟩ := hharmless.succeeds_iff.mp hrun
  intro db₂
  rw [(WorkFiles.empty_harmless args chain).succeeds_iff]
  constructor
  · rintro ⟨start', dumpEnd', keys', hrange', hkeys', hload'⟩
    obtain ⟨rfl, rfl⟩ := Prod.mk.inj (Except.ok.inj (hrange'.symm.trans hrange))
    obtain rfl := Except.ok.inj (hkeys'.symm.trans hkeys)
    exact Except.ok.inj (hload'.symm.trans hload)
  · rintro rfl
    exact ⟨start, dumpEnd, keys, hrange, hkeys, hload⟩

/-! ### Two chunks of one block each -/

theorem listed_chunkFiles {network : Network} {dumps : List Dump}
    (hordered : ∀ magic, dumps.Pairwise fun dump other =>
      outPath magic dump.firstHeight dump.lastHeight ≤
        outPath magic other.firstHeight other.lastHeight) :
    (chunkFiles network dumps).listed = chunkFiles network dumps := by
  apply ParsedFiles.ext
  · apply List.mergeSort_of_pairwise
    exact List.pairwise_map.mpr ((hordered .outputs).imp decide_eq_true)
  · apply List.mergeSort_of_pairwise
    exact List.pairwise_map.mpr ((hordered .spends).imp decide_eq_true)
  · apply List.mergeSort_of_pairwise
    exact List.pairwise_map.mpr ((hordered .blockMeta).imp decide_eq_true)

/-- Chunks of a valid chain merge and load into an empty store. -/
theorem exists_loaded {args : OrchestratorArgs} {chain : Chain} {dumps : List Dump}
    (hstart : args.start = 0) (hvalid : ValidChain chain) (hne : chain ≠ [])
    (hcut : CutInto chain dumps) (hfits : (chainOutputs chain).length ≤ 0xFFFFFFFF + 1) :
    ∃ keys db, mergeParsed args (chunkFiles args.network dumps) = .ok keys ∧
      loadKeys args.batchSize keys ∅ = .ok db ∧
        SeededStore chain args.undoBlocks args.txIndex db := by
  have hseed := bulkSync_chain args.toBulkOptions hvalid hne hcut holdsNothing_empty
  rw [if_neg hfits.not_gt] at hseed
  obtain ⟨db, hload, hstore⟩ := hseed
  rw [bulkSync, Fallible.bind_eq_ok_iff] at hload
  obtain ⟨keys, hkeys, hload⟩ := hload
  rw [← mergeParsed_eq_phaseMerge hstart] at hkeys
  exact ⟨keys, db, hkeys, Fallible.mapError_eq_ok_iff.mp hload, hstore⟩

/-- The second block of a chain that the node gave up. -/
def orphanBlock : Block :=
  { hash := 9
    prevHash := 1
    timestamp := 21
    transactions :=
      [{ id := 109
         ins := [{ hash := 0, index := coinbaseIndex }]
         outs := [{ scriptHash := 7, value := 50 }] }] }

/-- The node's chain now. -/
def nodeChain : Chain := [liveBlock, spendingBlock, firstBlock]

/-- A run to height 1, a block a chunk. -/
def twoChunks : SeedArgs := ⟨⟨0, some 1, 10, false, 1⟩, ⟨⟨1, 1, true⟩, ⟨1, 0⟩, 3⟩⟩

theorem twoChunks_range :
    dumpRange twoChunks.range (nodeChain.length - 1) twoChunks.opts.undoBlocks = .ok (0, 1) := rfl

theorem twoChunks_pieces : twoChunks.pieces 0 1 = [(0, 0), (1, 1)] := by
  simp [SeedArgs.pieces, twoChunks, RangeLoop.pieces, RangeLoop.pieceEnd]

theorem twoChunks_chunks : twoChunks.chunks nodeChain 0 1 = [lowDump, highDump] := by
  rw [SeedArgs.chunks, twoChunks_pieces]
  rfl

theorem twoChunks_ordered (blocks : List Block) (hone : blocks.length = 1) (magic : Magic) :
    [lowDump, ⟨1, blocks⟩].Pairwise fun dump other =>
      outPath magic dump.firstHeight dump.lastHeight ≤
        outPath magic other.firstHeight other.lastHeight := by
  have hordered : outPath magic 0 0 ≤ outPath magic 1 1 := by
    cases magic with
    | outputs => decide
    | spends => decide
    | blockMeta => decide
  rw [List.pairwise_pair, Dump.lastHeight, Dump.lastHeight, hone]
  exact hordered

theorem twoChunks_listing : twoChunks.listing nodeChain 0 1 =
    chunkFiles twoChunks.opts.network [lowDump, highDump] := by
  rw [SeedArgs.listing, twoChunks_chunks]
  exact listed_chunkFiles (twoChunks_ordered [spendingBlock] rfl)

def orphanDump : Dump := ⟨1, [orphanBlock]⟩

/-- The sorted outputs of the chain with the orphan, and their manifest. -/
def orphanSorted : SortedArtifact OutputsRecord where
  file := some ⟨[lowDump, orphanDump].flatMap fun dump =>
    (parseOutputs twoChunks.opts.network dump).body, false⟩
  manifest := some ⟨⟨.outputs, 1, 0, 0, 1, 2, outputsRecordSize⟩, 2⟩

/-- What a run to height 1 on the chain with the orphan leaves that is killed while it parses, after
one that sorted its outputs. -/
def halfParsedFiles : WorkFiles where
  dumps := [⟨twoChunks.opts.network, orphanDump⟩, ⟨twoChunks.opts.network, lowDump⟩]
  parsed := ⟨[lowDump, orphanDump].map (parseOutputs twoChunks.opts.network),
    [parseSpends twoChunks.opts.network lowDump], [parseMeta twoChunks.opts.network lowDump]⟩
  merge := ⟨none, none, none, orphanSorted, ⟨none, none⟩⟩
  dumps_nodup := by decide
  outputs_nodup := by decide
  spends_nodup := by decide
  blocks_nodup := by decide
  allMeta := fun _ hnone => absurd hnone (Option.some_ne_none _).symm

theorem halfParsed_harmless : halfParsedFiles.HarmlessTo twoChunks nodeChain := by
  intro start dumpEnd hrange
  obtain ⟨rfl, rfl⟩ := Prod.mk.inj (Except.ok.inj (hrange.symm.trans twoChunks_range))
  rw [twoChunks_chunks]
  have hfound : findFiles ([lowDump, highDump].map (parseOutputs twoChunks.opts.network)) =
      [lowDump, highDump].map (parseOutputs twoChunks.opts.network) :=
    congrArg ParsedFiles.outputs (listed_chunkFiles (twoChunks_ordered [spendingBlock] rfl))
  have hfresh : (concatFilesWithHeader "all-outputs.dat" ([lowDump, highDump].map
      (parseOutputs twoChunks.opts.network))).map (orphanSorted.reusable ·) = .ok false := rfl
  constructor
  · decide
  · decide
  · decide
  · decide
  · decide
  · decide
  · intro all hall hreuse
    rw [hfound] at hall
    rw [hall] at hfresh
    have hnot : orphanSorted.reusable all = false := Except.ok.inj hfresh
    exact absurd (hnot.symm.trans hreuse) Bool.false_ne_true
  · exact fun _ _ hreuse => absurd hreuse Bool.false_ne_true

theorem exists_nodeLoaded : ∃ keys db,
    mergeParsed twoChunks.orchestrator (twoChunks.listing nodeChain 0 1) = .ok keys ∧
      loadKeys twoChunks.opts.batchSize keys ∅ = .ok db ∧
        SeededStore [spendingBlock, firstBlock] 1 true db := by
  rw [twoChunks_listing]
  exact @exists_loaded twoChunks.orchestrator _ [lowDump, highDump] rfl validChain_spending
    (List.cons_ne_nil _ _)
    ⟨⟨rfl, List.cons_ne_nil _ _, rfl, List.cons_ne_nil _ _, trivial⟩, rfl⟩ (by decide)

/-- The orphan's dump and its lone outputs are written anew, and the outputs are sorted anew. -/
theorem loads_as_from_empty_halfParsed : ∃ db₁, SeededStore [spendingBlock, firstBlock] 1 true db₁ ∧
    ∀ db₂, Succeeds twoChunks nodeChain .empty ∅ db₂ ↔ db₂ = db₁ := by
  obtain ⟨keys, db₁, hkeys, hload, hstore⟩ := exists_nodeLoaded
  have hrun : Succeeds twoChunks nodeChain halfParsedFiles ∅ db₁ :=
    halfParsed_harmless.succeeds_iff.mpr ⟨0, 1, keys, twoChunks_range, hkeys, hload⟩
  exact ⟨db₁, hstore, loads_as_from_empty halfParsed_harmless hrun⟩

/-- Both chunks are dumped anew into an empty directory. -/
theorem twoChunks_dumped : dumpChunks twoChunks.opts.network nodeChain (twoChunks.pieces 0 1) [] =
    [⟨twoChunks.opts.network, highDump⟩, ⟨twoChunks.opts.network, lowDump⟩] := by
  rw [twoChunks_pieces]
  rfl

/-- The parsed files that a whole run to height 1 leaves on the chain with the orphan. -/
def orphanedFiles : WorkFiles :=
  { WorkFiles.empty with
    parsed := chunkFiles twoChunks.opts.network [lowDump, orphanDump]
    outputs_nodup := by decide
    spends_nodup := by decide
    blocks_nodup := by decide }

/-- **The parsed range of an orphan is loaded**: its chunk is dumped anew, but the worker finds its
three files whole. The run from an empty directory loads the node's chain. -/
theorem orphaned_range_loaded : ∃ db₁ db₂, Succeeds twoChunks nodeChain orphanedFiles ∅ db₁ ∧
    SeededStore [orphanBlock, firstBlock] 1 true db₁ ∧
    Succeeds twoChunks nodeChain .empty ∅ db₂ ∧
    SeededStore [spendingBlock, firstBlock] 1 true db₂ ∧ db₁ ≠ db₂ := by
  obtain ⟨keys₁, db₁, hkeys₁, hload₁, hstore₁⟩ := @exists_loaded twoChunks.orchestrator
    [orphanBlock, firstBlock] [lowDump, orphanDump] rfl (by decide) (List.cons_ne_nil _ _)
    ⟨⟨rfl, List.cons_ne_nil _ _, rfl, List.cons_ne_nil _ _, trivial⟩, rfl⟩ (by decide)
  obtain ⟨keys₂, db₂, hkeys₂, hload₂, hstore₂⟩ := exists_nodeLoaded
  refine ⟨db₁, db₂, ?_, hstore₁, ?_, hstore₂, ?_⟩
  · have hskipped : ∀ file ∈ [ChunkFile.mk twoChunks.opts.network highDump,
        ⟨twoChunks.opts.network, lowDump⟩],
        orphanedFiles.parsed.looksComplete file.dump = true := by decide
    have hparse := (Relation.ReflTransGen.single (ParseStep.skipped
      (s := ⟨orphanedFiles.parsed, [⟨twoChunks.opts.network, highDump⟩,
        ⟨twoChunks.opts.network, lowDump⟩], []⟩) List.mem_cons_self
      (hskipped _ List.mem_cons_self))).tail (.skipped List.mem_cons_self
        (hskipped _ (List.mem_cons_of_mem _ List.mem_cons_self)))
    obtain ⟨merge, hmerge⟩ := exists_merged_empty (chunkFiles_current _ _) hkeys₁
    have hlisting : orphanedFiles.parsed.listed =
        chunkFiles twoChunks.orchestrator.network [lowDump, orphanDump] :=
      listed_chunkFiles (twoChunks_ordered [orphanBlock] rfl)
    rw [← hlisting] at hmerge
    refine ⟨twoChunks_range, ?_, hmerge, hload₁⟩
    rw [show orphanedFiles.dumps = [] from rfl, twoChunks_dumped]
    exact hparse
  · rw [(WorkFiles.empty_harmless twoChunks nodeChain).succeeds_iff]
    exact ⟨0, 1, keys₂, twoChunks_range, hkeys₂, hload₂⟩
  · rintro rfl
    have hunspent := (hstore₁.durable.indexes (.outHint 102 0) rfl).symm.trans
      (hstore₂.durable.indexes (.outHint 102 0) rfl)
    exact absurd hunspent (by decide)

end Bulk

end UtxoTracker

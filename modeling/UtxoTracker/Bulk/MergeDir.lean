import UtxoTracker.Bulk.Load
/-!
# The merge directory

The concatenated and the sorted streams that a run leaves under `merge/`, when a later run takes
them over, and the merge step by step. A concatenation is renamed into place whole. A sort writes
its output in place and binds it to its source by a manifest when it is done.
-/

namespace UtxoTracker.Bulk

/-- The orchestrator's options that the merge and the load read. -/
structure OrchestratorArgs extends BulkOptions where
  /-- `--from` -/
  start : Nat
  /-- `--to`; `none` when the dump ends below the node's tip. -/
  last : Option Nat

/-! ### Concatenated streams -/

section Stream

variable {ρ : Type}

/-- `validateConcatArtifact`: the header is that of this run, and the body has its records. -/
def validateConcatArtifact (args : OrchestratorArgs) (all : DatFile ρ) : Bool :=
  decide (all.header.chain = args.network.chain) && decide (all.header.net = args.network.net) &&
    decide (all.header.firstHeight = args.start) &&
    args.last.all (fun last => decide (all.header.lastHeight = last)) &&
    decide (all.header.recordSize ≠ 0) && decide (all.body.length = all.header.recordCount)

/-! ### Sorted streams -/

/-- The output of a sort: its whole records, and whether a part of one follows. -/
structure SortedFile (ρ : Type) where
  records : List ρ
  torn : Bool

/-- Whether a file has the size of that many records. -/
def SortedFile.hasSize (file : SortedFile ρ) (count : Nat) : Bool :=
  !file.torn && decide (file.records.length = count)

/-- `writeSortedManifest`: the header of the source, and the size of the output in records. -/
structure SortedManifest where
  source : DatHeader
  sortedSize : Nat

structure SortedArtifact (ρ : Type) where
  file : Option (SortedFile ρ)
  manifest : Option SortedManifest

/-- `sortedReusable`, with `checkSortedManifest` -/
def SortedArtifact.reusable (artifact : SortedArtifact ρ) (all : DatFile ρ) : Bool :=
  artifact.file.any fun file => file.hasSize all.body.length &&
    artifact.manifest.any fun manifest =>
      decide (manifest.source = all.header) && file.hasSize manifest.sortedSize

/-- The sorted file is taken over, or written anew with its manifest. -/
def SortedArtifact.sortOrReuse (artifact : SortedArtifact ρ) (sort : List ρ → List ρ)
    (all : DatFile ρ) : SortedArtifact ρ :=
  if artifact.reusable all then artifact
  else ⟨some ⟨sort all.body, false⟩, some ⟨all.header, (sort all.body).length⟩⟩

/-- The file is there and has these records. -/
def SortedArtifact.Holds (artifact : SortedArtifact ρ) (records : List ρ) : Prop :=
  ∃ file, artifact.file = some file ∧ file.records = records

/-- When the file is taken over for a source, it is that source sorted. -/
def SortedArtifact.Right (sort : List ρ → List ρ) (all : DatFile ρ) (artifact : SortedArtifact ρ) :
    Prop :=
  artifact.reusable all = true → artifact.Holds (sort all.body)

end Stream

/-- The sort of `sortOutputs`. -/
def sortOutputs (args : OrchestratorArgs) : List OutputsRecord → List OutputsRecord :=
  sortBy args.ramBudgetBytes outputsRecordSize OutputsRecord.key

/-- The sort of `sortSpends`. -/
def sortSpends (args : OrchestratorArgs) : List SpendsRecord → List SpendsRecord :=
  sortBy args.ramBudgetBytes spendsRecordSize SpendsRecord.key

/-! ### The directory -/

structure MergeDir where
  allOutputs : Option (DatFile OutputsRecord)
  allSpends : Option (DatFile SpendsRecord)
  allMeta : Option (DatFile MetaRecord)
  outputsSorted : SortedArtifact OutputsRecord
  spendsSorted : SortedArtifact SpendsRecord

def MergeDir.empty : MergeDir := ⟨none, none, none, ⟨none, none⟩, ⟨none, none⟩⟩

def sameRange (h outH : DatHeader) : Bool :=
  decide (h.firstHeight = outH.firstHeight) && decide (h.lastHeight = outH.lastHeight)

def MergeDir.concatReusableForRun (dir : MergeDir) (args : OrchestratorArgs) : Bool :=
  dir.allOutputs.any fun outputs => dir.allSpends.any fun spends => dir.allMeta.any fun blocks =>
    validateConcatArtifact args outputs && validateConcatArtifact args spends &&
      validateConcatArtifact args blocks && sameRange spends.header outputs.header &&
      sameRange blocks.header outputs.header

/-- The width that `readOutputsRecordSize` finds in a header, the current one where it is absent. -/
def readOutputsRecordSize (all : DatFile OutputsRecord) : Nat :=
  if 0 < all.header.recordSize then all.header.recordSize else outputsRecordSize

/-- `assertCurrentParseFormat`, and the check of the outputs' width after it. -/
def MergeDir.currentFormat (dir : MergeDir) : Bool :=
  dir.allOutputs.any (fun all => decide (all.header.magic = .outputs) &&
      decide (readOutputsRecordSize all = outputsRecordSize)) &&
    dir.allSpends.any (fun all => decide (all.header.magic = .spends)) &&
    dir.allMeta.any fun all => decide (all.header.magic = .blockMeta)

/-- What `CleanupManager` may take of the files that are not read any more. It leaves the
manifests. -/
structure Freed (dir dir' : MergeDir) : Prop where
  allOutputs : dir'.allOutputs = dir.allOutputs ∨ dir'.allOutputs = none
  allSpends : dir'.allSpends = dir.allSpends ∨ dir'.allSpends = none
  allMeta : dir'.allMeta = dir.allMeta ∨ dir'.allMeta = none
  outputsSorted : dir'.outputsSorted = dir.outputsSorted ∨
    dir'.outputsSorted = { dir.outputsSorted with file := none }
  spendsSorted : dir'.spendsSorted = dir.spendsSorted ∨
    dir'.spendsSorted = { dir.spendsSorted with file := none }

/-! ### The merge -/

/-- The files of the three streams under `parsed/`. -/
@[ext]
structure ParsedFiles where
  outputs : List (DatFile OutputsRecord)
  spends : List (DatFile SpendsRecord)
  blocks : List (DatFile MetaRecord)

/-- `antiJoinLiveUtxos` and `deriveLevelDbKeys` on the files they read. Spends without an output are
refused in a run from the genesis block only. -/
def joinAndDerive (args : OrchestratorArgs) (sortedOutputs : List OutputsRecord)
    (sortedSpends : List SpendsRecord) (allMeta : List MetaRecord)
    (allOutputs : List OutputsRecord) : Except BulkError DerivedKeys :=
  let joined :=
    AntiJoin.joinRecords OutputsRecord.key SpendsRecord.key sortedOutputs sortedSpends
  if 0 < joined.orphanSpends ∧ args.start = 0 then .error (.orphanSpends joined.orphanSpends)
  else (deriveKeys args.toDeriveOptions allMeta allOutputs joined.emitted).mapError .derive

/-- `phaseMerge` of the listed files with nothing to take over. -/
def mergeParsed (args : OrchestratorArgs) (found : ParsedFiles) :
    Except BulkError DerivedKeys := do
  let allOutputs ← (concatFilesWithHeader "all-outputs.dat" found.outputs).mapError .concat
  let allSpends ← (concatFilesWithHeader "all-spends.dat" found.spends).mapError .concat
  let allMeta ← (concatFilesWithHeader "all-meta.dat" found.blocks).mapError .concat
  joinAndDerive args (sortOutputs args allOutputs.body) (sortSpends args allSpends.body)
    allMeta.body allOutputs.body

inductive MergeStage where
  | concat
  /-- The files that were listed, and the stream that is concatenated next. -/
  | concatenating (found : ParsedFiles) (next : Magic)
  | sortOutputs
  | sortSpends
  | derive
  | load (keys : DerivedKeys)

structure MergeState where
  dir : MergeDir
  stage : MergeStage

/-- The steps of `phaseMerge` while `parsed/` holds these files. -/
inductive MergeStep (args : OrchestratorArgs) (parsed : ParsedFiles) :
    MergeState → MergeState → Prop where
  | reused {dir : MergeDir} (hreuse : dir.concatReusableForRun args = true) :
      MergeStep args parsed ⟨dir, .concat⟩ ⟨dir, .sortOutputs⟩
  | listed {dir : MergeDir} (hreuse : dir.concatReusableForRun args = false) :
      MergeStep args parsed ⟨dir, .concat⟩ ⟨dir, .concatenating parsed .outputs⟩
  | concatOutputs {dir : MergeDir} {found : ParsedFiles} {all : DatFile OutputsRecord}
      (hconcat : concatFilesWithHeader "all-outputs.dat" found.outputs = .ok all) :
      MergeStep args parsed ⟨dir, .concatenating found .outputs⟩
        ⟨{ dir with allOutputs := some all }, .concatenating found .spends⟩
  | concatSpends {dir : MergeDir} {found : ParsedFiles} {all : DatFile SpendsRecord}
      (hconcat : concatFilesWithHeader "all-spends.dat" found.spends = .ok all) :
      MergeStep args parsed ⟨dir, .concatenating found .spends⟩
        ⟨{ dir with allSpends := some all }, .concatenating found .blockMeta⟩
  | concatMeta {dir : MergeDir} {found : ParsedFiles} {all : DatFile MetaRecord}
      (hconcat : concatFilesWithHeader "all-meta.dat" found.blocks = .ok all) :
      MergeStep args parsed ⟨dir, .concatenating found .blockMeta⟩
        ⟨{ dir with allMeta := some all }, .sortOutputs⟩
  | sortedOutputs {dir : MergeDir} {all : DatFile OutputsRecord}
      (hformat : dir.currentFormat = true) (hall : dir.allOutputs = some all) :
      MergeStep args parsed ⟨dir, .sortOutputs⟩
        ⟨{ dir with outputsSorted := dir.outputsSorted.sortOrReuse (sortOutputs args) all },
          .sortSpends⟩
  | sortedSpends {dir : MergeDir} {all : DatFile SpendsRecord} (hall : dir.allSpends = some all) :
      MergeStep args parsed ⟨dir, .sortSpends⟩
        ⟨{ dir with spendsSorted := dir.spendsSorted.sortOrReuse (sortSpends args) all }, .derive⟩
  | derived {dir dir' : MergeDir} {outputs : SortedFile OutputsRecord}
      {spends : SortedFile SpendsRecord} {allMeta : DatFile MetaRecord}
      {allOutputs : DatFile OutputsRecord} {keys : DerivedKeys}
      (houtputs : dir.outputsSorted.file = some outputs)
      (hspends : dir.spendsSorted.file = some spends) (hmeta : dir.allMeta = some allMeta)
      (hall : dir.allOutputs = some allOutputs)
      (hkeys : joinAndDerive args outputs.records spends.records allMeta.body allOutputs.body =
        .ok keys)
      (hfreed : Freed dir dir') :
      MergeStep args parsed ⟨dir, .derive⟩ ⟨dir', .load keys⟩

/-- What a merge leaves that is killed or fails. A sort may have written a part of its output over
the old one, whose manifest is still there. -/
inductive MergeCut (args : OrchestratorArgs) : MergeState → MergeDir → Prop where
  | between {m : MergeState} : MergeCut args m m.dir
  | sortOutputs {dir : MergeDir} {all : DatFile OutputsRecord} {written : SortedFile OutputsRecord}
      (hall : dir.allOutputs = some all) (hreuse : dir.outputsSorted.reusable all = false)
      (hwritten : written.records <+: sortOutputs args all.body) :
      MergeCut args ⟨dir, .sortOutputs⟩
        { dir with outputsSorted := { dir.outputsSorted with file := some written } }
  | sortSpends {dir : MergeDir} {all : DatFile SpendsRecord} {written : SortedFile SpendsRecord}
      (hall : dir.allSpends = some all) (hreuse : dir.spendsSorted.reusable all = false)
      (hwritten : written.records <+: sortSpends args all.body) :
      MergeCut args ⟨dir, .sortSpends⟩
        { dir with spendsSorted := { dir.spendsSorted with file := some written } }
  | derive {dir dir' : MergeDir} (hfreed : Freed dir dir') : MergeCut args ⟨dir, .derive⟩ dir'

end UtxoTracker.Bulk

import UtxoTracker.Bulk.MergeDir
import UtxoTracker.Proof.WorkDir
/-!
# What a merge takes over

The header of a concatenation names the part of the chain it holds. A sorted file that is taken over
for it is the right one when its manifest was written for that part; then the merge step by step is
the merge of a fresh directory.
-/

namespace UtxoTracker

open Bulk

namespace Bulk

/-! ### The header of a concatenation -/

section Concat

variable {ρ : Type} {network : Network} {magic : Magic} {recordSize : Nat}
  {records : Dump → List ρ} {path : String}

theorem header_concatInto {output all : DatFile ρ} {files : List (DatFile ρ)} {prevLastHeight : Nat}
    (hrun : concatInto output prevLastHeight files = .ok all) :
    all.header.magic = output.header.magic ∧
      all.header.recordSize = output.header.recordSize := by
  induction files generalizing output prevLastHeight with
  | nil => exact Except.ok.inj hrun ▸ ⟨rfl, rfl⟩
  | cons file rest ih =>
      rw [concatInto] at hrun
      split at hrun
      · cases hrun
      · have hrest := ih hrun
        exact hrest

/-- The magic and the record size are those of the first file. -/
theorem header_concat {files : List (DatFile ρ)} {all : DatFile ρ}
    (hfiles : ∀ file ∈ files, file.header.magic = magic ∧ file.header.recordSize = recordSize)
    (hrun : concatFilesWithHeader path files = .ok all) :
    all.header.magic = magic ∧ all.header.recordSize = recordSize := by
  cases files with
  | nil => cases hrun
  | cons file rest =>
      rw [concatFilesWithHeader] at hrun
      split at hrun
      · cases hrun
      · obtain ⟨hmagic, hsize⟩ := header_concatInto hrun
        obtain ⟨hmagic', hsize'⟩ := hfiles file List.mem_cons_self
        exact ⟨hmagic.trans hmagic', hsize.trans hsize'⟩

theorem lastHeight_concatInto {start prevLastHeight : Nat} {dumps : List Dump}
    {output all : DatFile ρ} (hcontiguous : Contiguous start dumps)
    (hlast : output.header.lastHeight + 1 = start)
    (hrun : concatInto output prevLastHeight
      (dumps.map (fileOf network magic recordSize records)) = .ok all) :
    all.header.lastHeight + 1 = start + (dumps.flatMap Dump.blocks).length := by
  induction dumps generalizing start output prevLastHeight with
  | nil =>
      rw [List.map_nil, concatInto] at hrun
      rw [← Except.ok.inj hrun, hlast]
      rfl
  | cons dump rest ih =>
      obtain ⟨hfirst, hblocks, hrest⟩ := hcontiguous
      have hlength := List.length_pos_iff.mpr hblocks
      rw [List.map_cons, concatInto] at hrun
      split at hrun
      · cases hrun
      · rw [ih hrest ?_ hrun, List.flatMap_cons, List.length_append, Nat.add_assoc]
        have hdump : (fileOf network magic recordSize records dump).header.lastHeight =
            dump.firstHeight + dump.blocks.length - 1 := rfl
        simp only [hdump]
        omega

/-- **The header of a concatenation ends where its ranges end.** -/
theorem lastHeight_concat {start : Nat} {dumps : List Dump} {all : DatFile ρ}
    (hcontiguous : Contiguous start dumps)
    (hrun : concatFilesWithHeader path (dumps.map (fileOf network magic recordSize records)) =
      .ok all) :
    all.header.lastHeight + 1 = start + (dumps.flatMap Dump.blocks).length := by
  cases dumps with
  | nil => cases hrun
  | cons dump rest =>
      obtain ⟨hfirst, hblocks, hrest⟩ := hcontiguous
      have hlength := List.length_pos_iff.mpr hblocks
      rw [List.map_cons, concatFilesWithHeader] at hrun
      split at hrun
      · cases hrun
      · have hdump : (fileOf network magic recordSize records dump).header.lastHeight + 1 =
            start + dump.blocks.length := by
          have : (fileOf network magic recordSize records dump).header.lastHeight =
              dump.firstHeight + dump.blocks.length - 1 := rfl
          omega
        have hall := lastHeight_concatInto hrest (by exact hdump) hrun
        rw [hall, List.flatMap_cons, List.length_append, Nat.add_assoc]

theorem body_concat {start : Nat} {dumps : List Dump} {all : DatFile ρ}
    (hcontiguous : Contiguous start dumps) (hne : dumps ≠ [])
    (hrun : concatFilesWithHeader path (dumps.map (fileOf network magic recordSize records)) =
      .ok all) :
    all.body = dumps.flatMap records := by
  obtain ⟨file, hfile, hbody⟩ :=
    concatFilesWithHeader_closeFile network magic recordSize records path hcontiguous hne
  have heq : Except.ok file = Except.ok all := hfile.symm.trans hrun
  rw [← Except.ok.inj heq, hbody]

theorem dumps_ne_nil_of_concat {dumps : List Dump} {file : Dump → DatFile ρ} {all : DatFile ρ}
    (hrun : concatFilesWithHeader path (dumps.map file) = .ok all) : dumps ≠ [] := by
  rintro rfl
  cases hrun

end Concat

/-! ### Parts of a chain -/

/-- Chunks of a chain, one after the other from its genesis block on. -/
structure Listing (chain : Chain) (dumps : List Dump) : Prop where
  contiguous : Contiguous 0 dumps
  chunks : ∀ dump ∈ dumps, dump.Of chain

theorem Listing.nil (chain : Chain) : Listing chain [] :=
  ⟨trivial, fun _ hmem => absurd hmem List.not_mem_nil⟩

/-- A stream of fixed records, written block by block. -/
def streamOf {ρ : Type} (network : Network) (magic : Magic) (recordSize : Nat)
    (records : Block × Nat → List ρ) : Dump → DatFile ρ :=
  fileOf network magic recordSize fun dump => dump.heights.flatMap records

section Listing

variable {ρ : Type} {network : Network} {magic : Magic} {recordSize : Nat}
  {records : Block × Nat → List ρ} {path : String} {chain : Chain} {dumps others : List Dump}
  {all other : DatFile ρ}

theorem Listing.body (hdumps : Listing chain dumps)
    (hall : concatFilesWithHeader path (dumps.map (streamOf network magic recordSize records)) =
      .ok all) :
    all.body = ((chain.reverse.take (all.header.lastHeight + 1)).zipIdx).flatMap records := by
  have hblocks := hdumps.contiguous.blocks_eq hdumps.chunks
  have hlast := lastHeight_concat hdumps.contiguous hall
  rw [List.drop_zero] at hblocks
  rw [Nat.zero_add] at hlast
  rw [body_concat hdumps.contiguous (dumps_ne_nil_of_concat hall) hall, ← List.flatMap_assoc,
    heights_flatMap hdumps.contiguous, hblocks, hlast]

/-- **A header names its records**: two parts of one chain that end at one height are one. -/
theorem Listing.body_eq (hdumps : Listing chain dumps) (hothers : Listing chain others)
    (hall : concatFilesWithHeader path (dumps.map (streamOf network magic recordSize records)) =
      .ok all)
    (hother : concatFilesWithHeader path (others.map (streamOf network magic recordSize records)) =
      .ok other)
    (hlast : all.header.lastHeight = other.header.lastHeight) : all.body = other.body := by
  rw [hdumps.body hall, hothers.body hother, hlast]

/-- More chunks end higher. -/
theorem Listing.lastHeight_le (hdumps : Listing chain dumps) (hothers : Listing chain others)
    (hsubset : dumps ⊆ others)
    (hall : concatFilesWithHeader path (dumps.map (streamOf network magic recordSize records)) =
      .ok all)
    (hother : concatFilesWithHeader path (others.map (streamOf network magic recordSize records)) =
      .ok other) :
    all.header.lastHeight ≤ other.header.lastHeight := by
  obtain ⟨last, hmem, hlast⟩ := hdumps.contiguous.exists_last (dumps_ne_nil_of_concat hall)
  have hle := hothers.contiguous.le_total last (hsubset hmem)
  have hend := lastHeight_concat hdumps.contiguous hall
  have hend' := lastHeight_concat hothers.contiguous hother
  omega

end Listing

/-! ### Sorted files -/

section Artifact

variable {ρ : Type} {sort : List ρ → List ρ} {all : DatFile ρ} {artifact : SortedArtifact ρ}

theorem SortedArtifact.reusable_iff : artifact.reusable all = true ↔
    ∃ file manifest, artifact.file = some file ∧ artifact.manifest = some manifest ∧
      file.torn = false ∧ file.records.length = all.body.length ∧
        manifest.source = all.header ∧ manifest.sortedSize = file.records.length := by
  simp only [SortedArtifact.reusable, SortedFile.hasSize, Option.any_eq_true, Bool.and_eq_true,
    Bool.not_eq_true', decide_eq_true_eq]
  constructor
  · rintro ⟨file, hfile, ⟨htorn, hsize⟩, manifest, hmanifest, hsource, -, hsorted⟩
    exact ⟨file, manifest, hfile, hmanifest, htorn, hsize, hsource, hsorted.symm⟩
  · rintro ⟨file, manifest, hfile, hmanifest, htorn, hsize, hsource, hsorted⟩
    exact ⟨file, hfile, ⟨htorn, hsize⟩, manifest, hmanifest, hsource, htorn, hsorted.symm⟩

theorem SortedArtifact.sortOrReuse_of_not (hreuse : artifact.reusable all = false) :
    artifact.sortOrReuse sort all =
      ⟨some ⟨sort all.body, false⟩, some ⟨all.header, (sort all.body).length⟩⟩ := by
  rw [SortedArtifact.sortOrReuse, if_neg (by rw [hreuse]; exact Bool.false_ne_true)]

/-- The sort leaves its source sorted, whether or not it ran. -/
theorem SortedArtifact.Right.holds (hright : artifact.Right sort all) :
    (artifact.sortOrReuse sort all).Holds (sort all.body) := by
  cases hreuse : artifact.reusable all with
  | true =>
      rw [SortedArtifact.sortOrReuse, if_pos hreuse]
      exact hright hreuse
  | false =>
      rw [SortedArtifact.sortOrReuse_of_not hreuse]
      exact ⟨_, rfl, rfl⟩

end Artifact

theorem length_sortOutputs (args : OrchestratorArgs) (records : List OutputsRecord) :
    (sortOutputs args records).length = records.length :=
  (sortBy_perm _ _ _).length_eq

theorem length_sortSpends (args : OrchestratorArgs) (records : List SpendsRecord) :
    (sortSpends args records).length = records.length :=
  (sortBy_perm _ _ _).length_eq

/-! ### The steps of a merge -/

/-- The three concatenations of what was listed. -/
structure Concats (found : ParsedFiles) (allOutputs : DatFile OutputsRecord)
    (allSpends : DatFile SpendsRecord) (allMeta : DatFile MetaRecord) : Prop where
  outputs : concatFilesWithHeader "all-outputs.dat" found.outputs = .ok allOutputs
  spends : concatFilesWithHeader "all-spends.dat" found.spends = .ok allSpends
  blocks : concatFilesWithHeader "all-meta.dat" found.blocks = .ok allMeta

/-- Files as the current writers close them. -/
structure ParsedFiles.Current (found : ParsedFiles) : Prop where
  outputs : ∀ file ∈ found.outputs,
    file.header.magic = .outputs ∧ file.header.recordSize = outputsRecordSize
  spends : ∀ file ∈ found.spends,
    file.header.magic = .spends ∧ file.header.recordSize = spendsRecordSize
  blocks : ∀ file ∈ found.blocks, file.header.magic = .blockMeta ∧ file.header.recordSize = 0

/-- The files that the workers close for some chunks. -/
def chunkFiles (network : Network) (dumps : List Dump) : ParsedFiles :=
  ⟨dumps.map (parseOutputs network), dumps.map (parseSpends network),
    dumps.map (parseMeta network)⟩

theorem chunkFiles_current (network : Network) (dumps : List Dump) :
    (chunkFiles network dumps).Current where
  outputs := List.forall_mem_map.mpr fun _ _ => ⟨rfl, rfl⟩
  spends := List.forall_mem_map.mpr fun _ _ => ⟨rfl, rfl⟩
  blocks := List.forall_mem_map.mpr fun _ _ => ⟨rfl, rfl⟩

/-- The files on disk at a stage of the merge of what was listed. -/
inductive MergeInv (args : OrchestratorArgs) (found : ParsedFiles) : MergeState → Prop where
  | concat {dir : MergeDir} : MergeInv args found ⟨dir, .concat⟩
  | concatOutputs {dir : MergeDir} : MergeInv args found ⟨dir, .concatenating found .outputs⟩
  | concatSpends {dir : MergeDir} {allOutputs : DatFile OutputsRecord}
      (houtputs : concatFilesWithHeader "all-outputs.dat" found.outputs = .ok allOutputs)
      (hdisk : dir.allOutputs = some allOutputs) :
      MergeInv args found ⟨dir, .concatenating found .spends⟩
  | concatMeta {dir : MergeDir} {allOutputs : DatFile OutputsRecord}
      {allSpends : DatFile SpendsRecord}
      (houtputs : concatFilesWithHeader "all-outputs.dat" found.outputs = .ok allOutputs)
      (hspends : concatFilesWithHeader "all-spends.dat" found.spends = .ok allSpends)
      (hdisk : dir.allOutputs = some allOutputs ∧ dir.allSpends = some allSpends) :
      MergeInv args found ⟨dir, .concatenating found .blockMeta⟩
  | sortOutputs {dir : MergeDir} {allOutputs : DatFile OutputsRecord}
      {allSpends : DatFile SpendsRecord} {allMeta : DatFile MetaRecord}
      (hconcats : Concats found allOutputs allSpends allMeta)
      (hdisk : dir.allOutputs = some allOutputs ∧ dir.allSpends = some allSpends ∧
        dir.allMeta = some allMeta) :
      MergeInv args found ⟨dir, .sortOutputs⟩
  | sortSpends {dir : MergeDir} {allOutputs : DatFile OutputsRecord}
      {allSpends : DatFile SpendsRecord} {allMeta : DatFile MetaRecord}
      (hconcats : Concats found allOutputs allSpends allMeta)
      (hdisk : dir.allOutputs = some allOutputs ∧ dir.allSpends = some allSpends ∧
        dir.allMeta = some allMeta)
      (houtputs : dir.outputsSorted.Holds (Bulk.sortOutputs args allOutputs.body)) :
      MergeInv args found ⟨dir, .sortSpends⟩
  | derive {dir : MergeDir} {allOutputs : DatFile OutputsRecord}
      {allSpends : DatFile SpendsRecord} {allMeta : DatFile MetaRecord}
      (hconcats : Concats found allOutputs allSpends allMeta)
      (hdisk : dir.allOutputs = some allOutputs ∧ dir.allMeta = some allMeta)
      (houtputs : dir.outputsSorted.Holds (Bulk.sortOutputs args allOutputs.body))
      (hspends : dir.spendsSorted.Holds (Bulk.sortSpends args allSpends.body)) :
      MergeInv args found ⟨dir, .derive⟩
  | load {dir : MergeDir} {keys : DerivedKeys} (hkeys : mergeParsed args found = .ok keys) :
      MergeInv args found ⟨dir, .load keys⟩

section Merge

variable {args : OrchestratorArgs} {found parsed : ParsedFiles} {m m' : MergeState}

theorem Concats.mergeParsed {allOutputs : DatFile OutputsRecord} {allSpends : DatFile SpendsRecord}
    {allMeta : DatFile MetaRecord} (hconcats : Concats found allOutputs allSpends allMeta) :
    Bulk.mergeParsed args found = joinAndDerive args (sortOutputs args allOutputs.body)
      (sortSpends args allSpends.body) allMeta.body allOutputs.body := by
  rw [Bulk.mergeParsed, hconcats.outputs, hconcats.spends, hconcats.blocks]
  rfl

/-- Current files pass the format check. -/
theorem Concats.currentFormat {allOutputs : DatFile OutputsRecord}
    {allSpends : DatFile SpendsRecord} {allMeta : DatFile MetaRecord} {dir : MergeDir}
    (hconcats : Concats found allOutputs allSpends allMeta) (hcurrent : found.Current)
    (houtputs : dir.allOutputs = some allOutputs) (hspends : dir.allSpends = some allSpends)
    (hmeta : dir.allMeta = some allMeta) : dir.currentFormat = true := by
  obtain ⟨hfirst, hsize⟩ := header_concat hcurrent.outputs hconcats.outputs
  obtain ⟨hsecond, -⟩ := header_concat hcurrent.spends hconcats.spends
  obtain ⟨hthird, -⟩ := header_concat hcurrent.blocks hconcats.blocks
  have hwidth : readOutputsRecordSize allOutputs = outputsRecordSize := by
    rw [readOutputsRecordSize, hsize]
    rfl
  simp [MergeDir.currentFormat, houtputs, hspends, hmeta, hfirst, hsecond, hthird, hwidth]

/-- **A step of the merge** stays that of a fresh directory, as long as no concatenation is taken
over and a sorted file that is taken over is the right one. -/
theorem MergeInv.step (hinv : MergeInv args found m) (hstep : MergeStep args parsed m m')
    (hlisted : m.stage = .concat → parsed = found)
    (hfresh : m.dir.concatReusableForRun args = false)
    (houtputs : ∀ all, concatFilesWithHeader "all-outputs.dat" found.outputs = .ok all →
      m.stage = .sortOutputs → m.dir.outputsSorted.Right (Bulk.sortOutputs args) all)
    (hspends : ∀ all, concatFilesWithHeader "all-spends.dat" found.spends = .ok all →
      m.stage = .sortSpends → m.dir.spendsSorted.Right (Bulk.sortSpends args) all) :
    MergeInv args found m' := by
  cases hstep with
  | reused hreuse =>
      rw [hreuse] at hfresh
      cases hfresh
  | listed hreuse =>
      obtain rfl := hlisted rfl
      exact .concatOutputs
  | concatOutputs hconcat =>
      cases hinv with
      | concatOutputs => exact .concatSpends hconcat rfl
  | concatSpends hconcat =>
      cases hinv with
      | concatSpends hfirst hdisk => exact .concatMeta hfirst hconcat ⟨hdisk, rfl⟩
  | concatMeta hconcat =>
      cases hinv with
      | concatMeta hfirst hsecond hdisk =>
          exact .sortOutputs ⟨hfirst, hsecond, hconcat⟩ ⟨hdisk.1, hdisk.2, rfl⟩
  | @sortedOutputs dir all hformat hall =>
      cases hinv with
      | sortOutputs hconcats hdisk =>
          obtain rfl := Option.some.inj (hall.symm.trans hdisk.1)
          exact .sortSpends hconcats hdisk (houtputs _ hconcats.outputs rfl).holds
  | @sortedSpends dir all hall =>
      cases hinv with
      | sortSpends hconcats hdisk hsorted =>
          obtain rfl := Option.some.inj (hall.symm.trans hdisk.2.1)
          exact .derive hconcats ⟨hdisk.1, hdisk.2.2⟩ hsorted
            (hspends _ hconcats.spends rfl).holds
  | derived hleft hright hmeta hall hkeys hfreed =>
      cases hinv with
      | derive hconcats hdisk hsorted hsorted' =>
          obtain ⟨file, hfile, hrecords⟩ := hsorted
          obtain ⟨file', hfile', hrecords'⟩ := hsorted'
          obtain rfl := Option.some.inj (hall.symm.trans hdisk.1)
          obtain rfl := Option.some.inj (hmeta.symm.trans hdisk.2)
          obtain rfl := Option.some.inj (hleft.symm.trans hfile)
          obtain rfl := Option.some.inj (hright.symm.trans hfile')
          rw [hrecords, hrecords', ← hconcats.mergeParsed] at hkeys
          exact .load hkeys

/-- **A merge that a fresh directory allows runs to its end**, whatever sorted files it takes
over. -/
theorem exists_merged {dir : MergeDir} {keys : DerivedKeys}
    (hcurrent : found.Current) (hkeys : Bulk.mergeParsed args found = .ok keys)
    (hfresh : dir.concatReusableForRun args = false)
    (houtputs : ∀ all, concatFilesWithHeader "all-outputs.dat" found.outputs = .ok all →
      dir.outputsSorted.Right (sortOutputs args) all)
    (hspends : ∀ all, concatFilesWithHeader "all-spends.dat" found.spends = .ok all →
      dir.spendsSorted.Right (sortSpends args) all) :
    ∃ dir', Relation.ReflTransGen (MergeStep args found) ⟨dir, .concat⟩ ⟨dir', .load keys⟩ := by
  have hall := hkeys
  simp only [Bulk.mergeParsed, Fallible.bind_eq_ok_iff, Fallible.mapError_eq_ok_iff] at hall
  obtain ⟨allOutputs, hfirst, allSpends, hsecond, allMeta, hthird, hderive⟩ := hall
  obtain ⟨sorted, hsorted, hrecords⟩ := (houtputs allOutputs hfirst).holds
  obtain ⟨sorted', hsorted', hrecords'⟩ := (hspends allSpends hsecond).holds
  rw [← hrecords, ← hrecords'] at hderive
  have hconcat := (((Relation.ReflTransGen.single (MergeStep.listed hfresh)).tail
    (.concatOutputs hfirst)).tail (.concatSpends hsecond)).tail (.concatMeta hthird)
  have hformat : MergeDir.currentFormat ⟨some allOutputs, some allSpends, some allMeta,
      dir.outputsSorted, dir.spendsSorted⟩ = true :=
    Concats.currentFormat ⟨hfirst, hsecond, hthird⟩ hcurrent rfl rfl rfl
  have hsort := (hconcat.tail (.sortedOutputs hformat rfl)).tail (.sortedSpends rfl)
  exact ⟨_, hsort.tail (.derived hsorted hsorted' rfl rfl hderive
    ⟨.inl rfl, .inl rfl, .inl rfl, .inl rfl, .inl rfl⟩)⟩

theorem exists_merged_empty {keys : DerivedKeys} (hcurrent : found.Current)
    (hkeys : Bulk.mergeParsed args found = .ok keys) :
    ∃ dir', Relation.ReflTransGen (MergeStep args found) ⟨.empty, .concat⟩ ⟨dir', .load keys⟩ :=
  exists_merged hcurrent hkeys rfl (fun _ _ hreuse => absurd hreuse Bool.false_ne_true)
    fun _ _ hreuse => absurd hreuse Bool.false_ne_true

end Merge

/-- No concatenation is taken over: the blocks have no record size. -/
theorem concatReusable_eq_false {dir : MergeDir} {args : OrchestratorArgs}
    (hmeta : ∀ allMeta, dir.allMeta = some allMeta → allMeta.header.recordSize = 0) :
    dir.concatReusableForRun args = false := by
  rw [Bool.eq_false_iff]
  intro hreuse
  simp only [MergeDir.concatReusableForRun, validateConcatArtifact, Option.any_eq_true,
    Bool.and_eq_true, decide_eq_true_eq] at hreuse
  obtain ⟨_, -, _, -, blocks, hblocks, ⟨⟨-, hvalid⟩, -⟩, -⟩ := hreuse
  exact absurd (hmeta blocks hblocks) hvalid.1.2

/-! ### A whole merge -/

section Clean

variable {ρ : Type} {sort : List ρ → List ρ} {all : DatFile ρ}
  {artifact artifact' : SortedArtifact ρ}

theorem SortedArtifact.Holds.right (hholds : artifact.Holds (sort all.body)) :
    artifact.Right sort all := fun _ => hholds

/-- A file that may have been taken away is no wrong one. -/
theorem SortedArtifact.Right.freed (hright : artifact.Right sort all)
    (hfreed : artifact' = artifact ∨ artifact' = { artifact with file := none }) :
    artifact'.Right sort all := by
  rcases hfreed with rfl | rfl
  · exact hright
  · intro hreuse
    obtain ⟨_, _, hfile, -⟩ := SortedArtifact.reusable_iff.mp hreuse
    cases hfile

/-- A merge of what was listed in which nothing wrong can be taken over. -/
structure CleanMerge (args : OrchestratorArgs) (found : ParsedFiles) (m : MergeState) : Prop where
  merge : MergeInv args found m
  allMeta : ∀ allMeta, m.dir.allMeta = some allMeta → allMeta.header.recordSize = 0
  outputsSorted : ∀ all, concatFilesWithHeader "all-outputs.dat" found.outputs = .ok all →
    m.dir.outputsSorted.Right (sortOutputs args) all
  spendsSorted : ∀ all, concatFilesWithHeader "all-spends.dat" found.spends = .ok all →
    m.dir.spendsSorted.Right (sortSpends args) all

variable {args : OrchestratorArgs} {found : ParsedFiles} {m m' : MergeState}

theorem CleanMerge.step (hclean : CleanMerge args found m) (hcurrent : found.Current)
    (hstep : MergeStep args found m m') : CleanMerge args found m' := by
  have hmerge := hclean.merge.step hstep (fun _ => rfl) (concatReusable_eq_false hclean.allMeta)
    (fun all hall _ => hclean.outputsSorted all hall)
    (fun all hall _ => hclean.spendsSorted all hall)
  cases hstep with
  | reused hreuse => exact ⟨hmerge, hclean.allMeta, hclean.outputsSorted, hclean.spendsSorted⟩
  | listed hreuse => exact ⟨hmerge, hclean.allMeta, hclean.outputsSorted, hclean.spendsSorted⟩
  | concatOutputs hconcat =>
      exact ⟨hmerge, hclean.allMeta, hclean.outputsSorted, hclean.spendsSorted⟩
  | concatSpends hconcat =>
      exact ⟨hmerge, hclean.allMeta, hclean.outputsSorted, hclean.spendsSorted⟩
  | concatMeta hconcat =>
      refine ⟨hmerge, ?_, hclean.outputsSorted, hclean.spendsSorted⟩
      intro allMeta hsome
      cases hclean.merge with
      | concatMeta _ _ _ =>
          obtain rfl := Option.some.inj hsome
          exact (header_concat hcurrent.blocks hconcat).2
  | sortedOutputs hformat hall =>
      refine ⟨hmerge, hclean.allMeta, ?_, hclean.spendsSorted⟩
      cases hclean.merge with
      | sortOutputs hconcats hdisk =>
          intro all hconcat
          obtain rfl := Option.some.inj (hall.symm.trans hdisk.1)
          obtain rfl := Except.ok.inj (hconcat.symm.trans hconcats.outputs)
          exact (hclean.outputsSorted _ hconcat).holds.right
  | sortedSpends hall =>
      refine ⟨hmerge, hclean.allMeta, hclean.outputsSorted, ?_⟩
      cases hclean.merge with
      | sortSpends hconcats hdisk hsorted =>
          intro all hconcat
          obtain rfl := Option.some.inj (hall.symm.trans hdisk.2.1)
          obtain rfl := Except.ok.inj (hconcat.symm.trans hconcats.spends)
          exact (hclean.spendsSorted _ hconcat).holds.right
  | derived hleft hright hmeta hall hkeys hfreed =>
      refine ⟨hmerge, ?_, ?_, ?_⟩
      · intro allMeta hsome
        rcases hfreed.allMeta with hsame | hnone
        · exact hclean.allMeta allMeta (hsame.symm.trans hsome)
        · cases hnone.symm.trans hsome
      · exact fun all hconcat => (hclean.outputsSorted all hconcat).freed hfreed.outputsSorted
      · exact fun all hconcat => (hclean.spendsSorted all hconcat).freed hfreed.spendsSorted

/-- **A merge that ends has merged what was listed.** -/
theorem CleanMerge.keys {dir : MergeDir} {keys : DerivedKeys} (hclean : CleanMerge args found m)
    (hcurrent : found.Current)
    (hrun : Relation.ReflTransGen (MergeStep args found) m ⟨dir, .load keys⟩) :
    mergeParsed args found = .ok keys := by
  have hend : ∀ m', Relation.ReflTransGen (MergeStep args found) m m' →
      CleanMerge args found m' := by
    intro m' hrun
    induction hrun with
    | refl => exact hclean
    | tail _ hstep ih => exact ih.step hcurrent hstep
  cases (hend _ hrun).merge with
  | load hkeys => exact hkeys

end Clean

end Bulk

end UtxoTracker

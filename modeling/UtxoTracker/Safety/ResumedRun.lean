import UtxoTracker.Bulk.ResumedRun
import UtxoTracker.Proof.MergeDir
import UtxoTracker.Safety.BulkSync
/-!
# What resumed runs load

Over all the runs on one work directory a sorted file is taken over only for the part of the chain
that it was sorted from: the parts that are merged only grow. While every merge lists a whole
directory, a run that reports success has loaded the store of a part of the chain.
-/

namespace UtxoTracker

open Bulk

namespace Bulk

/-! ### Sorted files over many runs -/

section Artifact

variable {ρ : Type} {network : Network} {magic : Magic} {recordSize : Nat}
  {records : Block × Nat → List ρ} {path : String} {sort : List ρ → List ρ} {chain : Chain}
  {last dumps : List Dump} {all : DatFile ρ} {artifact artifact' : SortedArtifact ρ}

/-- What the runs up to a merge of `last` leave of a sorted stream: a manifest is that of an earlier
part of the chain, and no file is taken over wrongly by a merge still to come. -/
structure ArtifactInv (chain : Chain) (stream : Dump → DatFile ρ) (path : String)
    (sort : List ρ → List ρ) (last : List Dump) (artifact : SortedArtifact ρ) : Prop where
  source : ∀ manifest, artifact.manifest = some manifest → ∃ dumps all, Listing chain dumps ∧
    dumps ⊆ last ∧ concatFilesWithHeader path (dumps.map stream) = .ok all ∧
      manifest.source = all.header
  right : ∀ dumps all, Listing chain dumps → last ⊆ dumps →
    concatFilesWithHeader path (dumps.map stream) = .ok all → artifact.Right sort all

theorem ArtifactInv.empty (stream : Dump → DatFile ρ) :
    ArtifactInv chain stream path sort last ⟨none, none⟩ where
  source := fun _ hnone => absurd hnone (Option.some_ne_none _).symm
  right := fun _ _ _ _ _ hreuse => absurd hreuse Bool.false_ne_true

/-- A later merge is of more chunks. -/
theorem ArtifactInv.mono {stream : Dump → DatFile ρ}
    (hinv : ArtifactInv chain stream path sort last artifact) (hsubset : last ⊆ dumps) :
    ArtifactInv chain stream path sort dumps artifact where
  source := by
    intro manifest hmanifest
    obtain ⟨others, all, hothers, hbefore, hall, hsource⟩ := hinv.source manifest hmanifest
    exact ⟨others, all, hothers, List.Subset.trans hbefore hsubset, hall, hsource⟩
  right := fun others all hothers hafter =>
    hinv.right others all hothers (List.Subset.trans hsubset hafter)

theorem ArtifactInv.sortOrReuse
    (hinv : ArtifactInv chain (streamOf network magic recordSize records) path sort last artifact)
    (hlast : Listing chain last)
    (hall : concatFilesWithHeader path (last.map (streamOf network magic recordSize records)) =
      .ok all) :
    ArtifactInv chain (streamOf network magic recordSize records) path sort last
      (artifact.sortOrReuse sort all) := by
  cases hreuse : artifact.reusable all with
  | true => rwa [SortedArtifact.sortOrReuse, if_pos hreuse]
  | false =>
      rw [SortedArtifact.sortOrReuse_of_not hreuse]
      constructor
      · intro manifest hmanifest
        rw [← Option.some.inj hmanifest]
        exact ⟨last, all, hlast, List.Subset.refl _, hall, rfl⟩
      · intro others other hothers _ hother hreusable
        obtain ⟨_, manifest, -, hmanifest, -, -, hsource, -⟩ :=
          SortedArtifact.reusable_iff.mp hreusable
        rw [← Option.some.inj hmanifest] at hsource
        have hheight : all.header.lastHeight = other.header.lastHeight :=
          congrArg DatHeader.lastHeight hsource
        exact ⟨_, rfl, congrArg sort (hlast.body_eq hothers hall hother hheight)⟩

/-- **A sort that is cut off** leaves a part of its output beside the manifest of an earlier, lower
merge. No later merge takes it over unless it is the whole output. -/
theorem ArtifactInv.cut {written : SortedFile ρ}
    (hinv : ArtifactInv chain (streamOf network magic recordSize records) path sort last artifact)
    (hlength : ∀ records, (sort records).length = records.length) (hlast : Listing chain last)
    (hall : concatFilesWithHeader path (last.map (streamOf network magic recordSize records)) =
      .ok all)
    (hwritten : written.records <+: sort all.body) :
    ArtifactInv chain (streamOf network magic recordSize records) path sort last
      { artifact with file := some written } := by
  refine ⟨hinv.source, ?_⟩
  intro others other hothers hafter hother hreusable
  obtain ⟨file, manifest, hfile, hmanifest, -, hsize, hsource, -⟩ :=
    SortedArtifact.reusable_iff.mp hreusable
  obtain ⟨before, first, hbefore, hsubset, hfirst, hheader⟩ := hinv.source manifest hmanifest
  have hlow := hbefore.lastHeight_le hlast hsubset hfirst hall
  have hhigh := hlast.lastHeight_le hothers hafter hall hother
  have hsame : first.header = other.header := hheader.symm.trans hsource
  have hheight : all.header.lastHeight = other.header.lastHeight := by
    rw [hsame] at hlow
    omega
  have hbody := hlast.body_eq hothers hall hother hheight
  rw [← hbody] at hsize ⊢
  obtain rfl := Option.some.inj hfile
  exact ⟨written, rfl, hwritten.eq_of_length (hsize.trans (hlength all.body).symm)⟩

theorem ArtifactInv.freed {stream : Dump → DatFile ρ}
    (hinv : ArtifactInv chain stream path sort last artifact)
    (hfreed : artifact' = artifact ∨ artifact' = { artifact with file := none }) :
    ArtifactInv chain stream path sort last artifact' := by
  rcases hfreed with rfl | rfl
  · exact hinv
  · exact ⟨hinv.source, fun _ _ _ _ _ hreuse => absurd hreuse Bool.false_ne_true⟩

end Artifact

/-! ### What the runs keep -/

/-- A listing of a whole directory, no smaller than the one of the last merge. -/
structure WholeListing (network : Network) (chain : Chain) (last : List Dump) (w : WorkDir)
    (found : ParsedFiles) (outs spds metas : List Dump) : Prop where
  outputs : found.outputs = outs.map (parseOutputs network)
  spends : found.spends = spds.map (parseSpends network)
  blocks : found.blocks = metas.map (parseMeta network)
  chunks : ∀ dump ∈ outs, dump.Of chain
  closed : ∀ dump ∈ outs, parseOutputs network dump ∈ w.outputs
  spends_iff : ∀ dump, dump ∈ spds ↔ dump ∈ outs
  blocks_iff : ∀ dump, dump ∈ metas ↔ dump ∈ outs
  genesis : ∃ first ∈ outs, first.firstHeight = 0
  last_subset : last ⊆ outs

/-- How far the merge of a run has come, the merged chunks being `last` once they are
concatenated. -/
inductive MergeAt (args : OrchestratorArgs) (chain : Chain) (last : List Dump) (w : WorkDir) :
    MergeState → Prop where
  | concat {dir : MergeDir} : MergeAt args chain last w ⟨dir, .concat⟩
  | concatenating {dir : MergeDir} {found : ParsedFiles} {next : Magic}
      {outs spds metas : List Dump}
      (hlisting : WholeListing args.network chain last w found outs spds metas)
      (hinv : MergeInv args found ⟨dir, .concatenating found next⟩) :
      MergeAt args chain last w ⟨dir, .concatenating found next⟩
  | concatenated {m : MergeState} (hne : last ≠ []) (hstage : m.stage ≠ .concat)
      (hstage' : ∀ found next, m.stage ≠ .concatenating found next)
      (hinv : MergeInv args (chunkFiles args.network last) m) :
      MergeAt args chain last w m

/-- What the runs up to a merge of `last` leave in the merge directory. -/
structure DirInv (args : OrchestratorArgs) (chain : Chain) (last : List Dump) (dir : MergeDir) :
    Prop where
  allMeta : ∀ allMeta, dir.allMeta = some allMeta → allMeta.header.recordSize = 0
  outputsSorted : ArtifactInv chain (parseOutputs args.network) "all-outputs.dat"
    (sortOutputs args) last dir.outputsSorted
  spendsSorted : ArtifactInv chain (parseSpends args.network) "all-spends.dat"
    (sortSpends args) last dir.spendsSorted

/-- **The invariant of runs on whole directories.** -/
structure ResumeInv (args : OrchestratorArgs) (chain : Chain) (s : ResumedRun) (last : List Dump) :
    Prop where
  run : ∃ outs spds metas, RunInv args.network chain s.run outs spds metas
  listing : Listing chain last
  closed : ∀ dump ∈ last, parseOutputs args.network dump ∈ s.run.dir.outputs
  dir : DirInv args chain last s.merge.dir
  running : s.run.phase = .stopped ∨
    MergeAt args chain last s.run.dir s.merge ∧ s.succeeded = false
  done : s.succeeded = true → ∃ below, below <:+ chain ∧ below ≠ [] ∧
    SeededStore below args.undoBlocks args.txIndex s.db

section Step

variable {args : OrchestratorArgs} {chain : Chain} {s s' : ResumedRun} {last : List Dump}
  {run run' : BulkRun} {w w' : WorkDir} {dump : Dump}

/-- A finished outputs file of a chunk stays. -/
theorem RunInv.keeps_outputs {outs spds metas : List Dump}
    (hinv : RunInv args.network chain run outs spds metas)
    (hstep : BulkStep args.network chain run run') (hdump : dump.Of chain)
    (hmem : parseOutputs args.network dump ∈ run.dir.outputs) :
    parseOutputs args.network dump ∈ run'.dir.outputs := by
  cases hstep with
  | @closedOutputs other orphaned hworker =>
      have hother : other.Of chain := (hinv.workers _ hworker).1
      by_cases heq : dump = other
      · subst heq
        exact List.mem_cons_self
      · apply List.mem_cons_of_mem
        rw [List.mem_filter]
        refine ⟨hmem, decide_eq_true ?_⟩
        intro hpath
        rw [parseOutputs_eq] at hpath
        exact heq (path_fileOf_inj hdump hother hpath)
  | _ => exact hmem

theorem WholeListing.mono {found : ParsedFiles} {outs spds metas : List Dump}
    (hlisting : WholeListing args.network chain last w found outs spds metas)
    (hkeeps : ∀ dump : Dump, dump.Of chain → parseOutputs args.network dump ∈ w.outputs →
      parseOutputs args.network dump ∈ w'.outputs) :
    WholeListing args.network chain last w' found outs spds metas :=
  { hlisting with
    closed := fun dump hmem => hkeeps dump (hlisting.chunks dump hmem) (hlisting.closed dump hmem) }

theorem MergeAt.mono {m : MergeState} (hat : MergeAt args chain last w m)
    (hkeeps : ∀ dump : Dump, dump.Of chain → parseOutputs args.network dump ∈ w.outputs →
      parseOutputs args.network dump ∈ w'.outputs) : MergeAt args chain last w' m := by
  cases hat with
  | concat => exact .concat
  | concatenating hlisting hinv => exact .concatenating (hlisting.mono hkeeps) hinv
  | concatenated hne hstage hstage' hinv => exact .concatenated hne hstage hstage' hinv

theorem DirInv.mono {dir : MergeDir} {dumps : List Dump} (hdir : DirInv args chain last dir)
    (hsubset : last ⊆ dumps) : DirInv args chain dumps dir :=
  ⟨hdir.allMeta, hdir.outputsSorted.mono hsubset, hdir.spendsSorted.mono hsubset⟩

theorem DirInv.freed {dir dir' : MergeDir} (hdir : DirInv args chain last dir)
    (hfreed : Freed dir dir') : DirInv args chain last dir' where
  allMeta := by
    intro allMeta hsome
    rcases hfreed.allMeta with hsame | hnone
    · exact hdir.allMeta allMeta (hsame.symm.trans hsome)
    · rw [hnone] at hsome
      cases hsome
  outputsSorted := hdir.outputsSorted.freed hfreed.outputsSorted
  spendsSorted := hdir.spendsSorted.freed hfreed.spendsSorted

/-- What is listed of a whole directory. -/
theorem RunInv.wholeListing {outs spds metas : List Dump}
    (hinv : RunInv args.network chain run outs spds metas) (hwhole : run.dir.Whole)
    (hlast : ∀ dump ∈ last, dump.Of chain)
    (hclosed : ∀ dump ∈ last, parseOutputs args.network dump ∈ run.dir.outputs) :
    ∃ outs' spds' metas',
      WholeListing args.network chain last run.dir run.dir.found outs' spds' metas' := by
  have hparsed := hinv.parsed
  obtain ⟨outs', spds', metas', hfound, houts, hspds, hmetas, hgenesis⟩ :=
    hparsed.exists_whole hwhole
  refine ⟨outs', spds', metas', hfound.outputs, hfound.spends, hfound.blocks, ?_, ?_, hspds, hmetas,
    hgenesis, ?_⟩
  · exact fun dump hmem => hparsed.chunks dump ((houts dump).mp hmem)
  · intro dump hmem
    rw [hparsed.outputs]
    exact List.mem_map_of_mem ((houts dump).mp hmem)
  · intro dump hmem
    have hfile := hclosed dump hmem
    rw [hparsed.outputs] at hfile
    obtain ⟨other, hother, heq⟩ := List.mem_map.mp hfile
    have hpath := congrArg DatFile.path heq
    rw [parseOutputs_eq] at hpath
    rw [← path_fileOf_inj (hparsed.chunks other hother) (hlast dump hmem) hpath]
    exact (houts other).mpr hother

/-- Once it is concatenated, a listing of a whole directory is one of a part of the chain. -/
theorem WholeListing.concatenated {found : ParsedFiles} {outs spds metas : List Dump}
    {allOutputs : DatFile OutputsRecord} {allSpends : DatFile SpendsRecord}
    {allMeta : DatFile MetaRecord}
    (hlisting : WholeListing args.network chain last w found outs spds metas)
    (hconcats : Concats found allOutputs allSpends allMeta) :
    Listing chain outs ∧ found = chunkFiles args.network outs := by
  obtain ⟨houtputs, hspends, hblocks⟩ := hconcats
  rw [hlisting.outputs] at houtputs
  rw [hlisting.spends] at hspends
  rw [hlisting.blocks] at hblocks
  obtain ⟨start, hcontiguous, rfl, rfl⟩ := exists_contiguous_of_concats hlisting.chunks
    hlisting.spends_iff hlisting.blocks_iff houtputs hspends hblocks
  obtain ⟨first, hmem, hzero⟩ := hlisting.genesis
  have hstart : start = 0 := by
    have hle := hcontiguous.le first hmem
    omega
  subst hstart
  exact ⟨⟨hcontiguous, hlisting.chunks⟩,
    ParsedFiles.ext hlisting.outputs hlisting.spends hlisting.blocks⟩

/-- **A step of the merge.** -/
theorem MergeAt.step {m m' : MergeState} (hat : MergeAt args chain last w m)
    (hdir : DirInv args chain last m.dir) (hlast : Listing chain last)
    (hclosed : ∀ dump ∈ last, parseOutputs args.network dump ∈ w.outputs)
    (hstep : MergeStep args w.found m m')
    (hwhole : m.stage = .concat → ∃ outs spds metas,
      WholeListing args.network chain last w w.found outs spds metas) :
    ∃ last', Listing chain last' ∧
      (∀ dump ∈ last', parseOutputs args.network dump ∈ w.outputs) ∧
        MergeAt args chain last' w m' ∧ DirInv args chain last' m'.dir := by
  have hfresh : m.dir.concatReusableForRun args = false := concatReusable_eq_false hdir.allMeta
  cases hat with
  | concat =>
      cases hstep with
      | reused hreuse =>
          rw [hfresh] at hreuse
          cases hreuse
      | listed hreuse =>
          obtain ⟨outs, spds, metas, hlisting⟩ := hwhole rfl
          exact ⟨last, hlast, hclosed, .concatenating hlisting .concatOutputs, hdir⟩
  | @concatenating dir found next outs spds metas hlisting hinv =>
      have hnext := hinv.step hstep (fun h => nomatch h) hfresh (fun _ _ h => nomatch h)
        (fun _ _ h => nomatch h)
      cases hstep with
      | concatOutputs hconcat =>
          exact ⟨last, hlast, hclosed, .concatenating hlisting hnext,
            ⟨hdir.allMeta, hdir.outputsSorted, hdir.spendsSorted⟩⟩
      | concatSpends hconcat =>
          exact ⟨last, hlast, hclosed, .concatenating hlisting hnext,
            ⟨hdir.allMeta, hdir.outputsSorted, hdir.spendsSorted⟩⟩
      | @concatMeta _ _ all hconcat =>
          cases hnext with
          | sortOutputs hconcats hdisk =>
              obtain ⟨houts, rfl⟩ := hlisting.concatenated hconcats
              have hmono := hdir.mono hlisting.last_subset
              refine ⟨outs, houts, hlisting.closed, ?_, ?_, hmono.outputsSorted,
                hmono.spendsSorted⟩
              · exact .concatenated (dumps_ne_nil_of_concat hconcats.outputs)
                  (fun h => nomatch h) (fun _ _ h => nomatch h) (.sortOutputs hconcats hdisk)
              · intro allMeta hsome
                obtain rfl := Option.some.inj hsome
                exact (header_concat (chunkFiles_current args.network outs).blocks hconcat).2
  | concatenated hne hstage hstage' hinv =>
      have hnext := hinv.step hstep (fun h => absurd h hstage) hfresh
        (fun all hall _ => hdir.outputsSorted.right last all hlast (List.Subset.refl _) hall)
        (fun all hall _ => hdir.spendsSorted.right last all hlast (List.Subset.refl _) hall)
      cases hstep with
      | reused _ => exact absurd rfl hstage
      | listed _ => exact absurd rfl hstage
      | concatOutputs _ => exact absurd rfl (hstage' _ _)
      | concatSpends _ => exact absurd rfl (hstage' _ _)
      | concatMeta _ => exact absurd rfl (hstage' _ _)
      | sortedOutputs _ hall =>
          cases hinv with
          | sortOutputs hconcats hdisk =>
              obtain rfl := Option.some.inj (hall.symm.trans hdisk.1)
              exact ⟨last, hlast, hclosed,
                .concatenated hne (fun h => nomatch h) (fun _ _ h => nomatch h) hnext,
                hdir.allMeta, hdir.outputsSorted.sortOrReuse hlast hconcats.outputs,
                hdir.spendsSorted⟩
      | sortedSpends hall =>
          cases hinv with
          | sortSpends hconcats hdisk _ =>
              obtain rfl := Option.some.inj (hall.symm.trans hdisk.2.1)
              exact ⟨last, hlast, hclosed,
                .concatenated hne (fun h => nomatch h) (fun _ _ h => nomatch h) hnext,
                hdir.allMeta, hdir.outputsSorted,
                hdir.spendsSorted.sortOrReuse hlast hconcats.spends⟩
      | derived _ _ _ _ _ hfreed =>
          exact ⟨last, hlast, hclosed,
            .concatenated hne (fun h => nomatch h) (fun _ _ h => nomatch h) hnext,
            hdir.freed hfreed⟩

/-- A merge begins by listing the parsed files when no concatenation is taken over. -/
theorem MergeStep.of_concat {parsed : ParsedFiles} {m m' : MergeState}
    (hstep : MergeStep args parsed m m') (hstage : m.stage = .concat)
    (hfresh : m.dir.concatReusableForRun args = false) :
    m'.stage = .concatenating parsed .outputs := by
  cases hstep with
  | reused hreuse =>
      rw [hfresh] at hreuse
      cases hreuse
  | listed _ => rfl
  | _ => cases hstage

/-- The keys that a run loads are those of the chunks it merged. -/
theorem MergeAt.of_load {m : MergeState} {keys : DerivedKeys} (hat : MergeAt args chain last w m)
    (hstage : m.stage = .load keys) :
    last ≠ [] ∧ mergeParsed args (chunkFiles args.network last) = .ok keys := by
  cases hat with
  | concat => cases hstage
  | concatenating _ _ => cases hstage
  | concatenated hne _ _ hinv =>
      refine ⟨hne, ?_⟩
      cases hinv with
      | load hkeys =>
          cases hstage
          exact hkeys
      | _ => cases hstage

/-- A merge that is killed. -/
theorem MergeAt.cut {m : MergeState} {dir : MergeDir} (hat : MergeAt args chain last w m)
    (hdir : DirInv args chain last m.dir) (hlast : Listing chain last)
    (hcut : MergeCut args m dir) : DirInv args chain last dir := by
  cases hcut with
  | between => exact hdir
  | sortOutputs hall hreuse hwritten =>
      cases hat with
      | concatenated hne hstage hstage' hinv =>
          cases hinv with
          | sortOutputs hconcats hdisk =>
              obtain rfl := Option.some.inj (hall.symm.trans hdisk.1)
              exact ⟨hdir.allMeta, hdir.outputsSorted.cut (length_sortOutputs args)
                hlast hconcats.outputs hwritten, hdir.spendsSorted⟩
  | sortSpends hall hreuse hwritten =>
      cases hat with
      | concatenated hne hstage hstage' hinv =>
          cases hinv with
          | sortSpends hconcats hdisk _ =>
              obtain rfl := Option.some.inj (hall.symm.trans hdisk.2.1)
              exact ⟨hdir.allMeta, hdir.outputsSorted, hdir.spendsSorted.cut
                (length_sortSpends args) hlast hconcats.spends hwritten⟩
  | derive hfreed => exact hdir.freed hfreed

/-- A merge from the genesis block on is the merge of the bulk pipeline. -/
theorem mergeParsed_eq_phaseMerge (hstart : args.start = 0) (dumps : List Dump) :
    mergeParsed args (chunkFiles args.network dumps) =
      phaseMerge args.toBulkOptions (dumps.map (parseOutputs args.network))
        (dumps.map (parseSpends args.network)) (dumps.map (parseMeta args.network)) := by
  simp only [mergeParsed, phaseMerge, joinAndDerive, chunkFiles, sortOutputs, sortSpends, hstart,
    and_true]

/-- A load that succeeds after the merge of a part of the chain has seeded that part. -/
theorem Listing.seeded {keys : DerivedKeys} {db db' : Db} (hstart : args.start = 0)
    (hvalid : ValidChain chain) (hlast : Listing chain last) (hne : last ≠ [])
    (hkeys : mergeParsed args (chunkFiles args.network last) = .ok keys)
    (hload : loadKeys args.batchSize keys db = .ok db') :
    ∃ below, below <:+ chain ∧ below ≠ [] ∧
      SeededStore below args.undoBlocks args.txIndex db' := by
  rw [mergeParsed_eq_phaseMerge hstart] at hkeys
  have hrun : bulkSync args.toBulkOptions last db = .ok db' := by
    rw [bulkSync, hkeys]
    exact Fallible.mapError_eq_ok_iff.mpr hload
  obtain ⟨below, hbelow, hcut⟩ := exists_cutInto hlast.contiguous hlast.chunks
  have hsome := hcut.ne_nil hne
  have hseed := bulkSync_chain args.toBulkOptions (hvalid.of_suffix hbelow) hsome hcut
    (fresh_of_bulkSync hrun)
  refine ⟨below, hbelow, hsome, ?_⟩
  split_ifs at hseed
  · rw [hrun] at hseed
    cases hseed
  · obtain ⟨db'', hseeded, hstore⟩ := hseed
    rw [hrun] at hseeded
    exact Except.ok.inj hseeded ▸ hstore

/-- A run is over, whatever the merge left. -/
theorem ResumeInv.over {survivors : List Worker} {dir : MergeDir}
    (hinv : ResumeInv args chain s last) (hdir : DirInv args chain last dir)
    (hsurvivors : survivors ⊆ s.run.workers) :
    ResumeInv args chain
      { s with run := s.run.over survivors, merge := { s.merge with dir } } last := by
  obtain ⟨outs, spds, metas, hrun⟩ := hinv.run
  exact
    { run := hrun.step (.ended hsurvivors)
      listing := hinv.listing
      closed := hinv.closed
      dir := hdir
      running := .inl rfl
      done := hinv.done }

theorem ResumeInv.of_merging {xdmpFiles : List Dump} (hinv : ResumeInv args chain s last)
    (hphase : s.run.phase = .merging xdmpFiles) :
    MergeAt args chain last s.run.dir s.merge ∧ s.succeeded = false := by
  apply hinv.running.resolve_left
  rw [hphase]
  exact fun h => nomatch h

/-- **The step lemma.** -/
theorem ResumeInv.step (hstart : args.start = 0) (hvalid : ValidChain chain)
    (hinv : ResumeInv args chain s last) (hstep : WholeStep args chain s s') :
    ∃ last', ResumeInv args chain s' last' := by
  obtain ⟨hstep, hwhole⟩ := hstep
  obtain ⟨outs, spds, metas, hrun⟩ := hinv.run
  cases hstep with
  | started hphase =>
      exact ⟨last,
        { run := hrun.step (.started false _ hphase)
          listing := hinv.listing
          closed := hinv.closed
          dir := hinv.dir
          running := .inr ⟨.concat, rfl⟩
          done := fun h => absurd h Bool.false_ne_true }⟩
  | worked hstep hgoes =>
      have hkeeps : ∀ dump : Dump, dump.Of chain →
          parseOutputs args.network dump ∈ s.run.dir.outputs → _ :=
        fun dump hdump hmem => hrun.keeps_outputs hstep hdump hmem
      exact ⟨last,
        { run := hrun.step hstep
          listing := hinv.listing
          closed := fun dump hmem =>
            hkeeps dump (hinv.listing.chunks dump hmem) (hinv.closed dump hmem)
          dir := hinv.dir
          running := hinv.running.imp hgoes.mpr fun ⟨hat, hdone⟩ => ⟨hat.mono hkeeps, hdone⟩
          done := hinv.done }⟩
  | @merged xdmpFiles merge hphase hstep =>
      obtain ⟨hat, hdone⟩ := hinv.of_merging hphase
      have hlisted : s.merge.stage = .concat → ∃ outs spds metas,
          WholeListing args.network chain last s.run.dir s.run.dir.found outs spds metas := by
        intro hconcat
        have hnext := hstep.of_concat hconcat (concatReusable_eq_false hinv.dir.allMeta)
        exact hrun.wholeListing (hwhole ⟨hconcat, _, hnext⟩) hinv.listing.chunks hinv.closed
      obtain ⟨last', hlast, hclosed, hat', hdir⟩ :=
        hat.step hinv.dir hinv.listing hinv.closed hstep hlisted
      exact ⟨last', hinv.run, hlast, hclosed, hdir, .inr ⟨hat', hdone⟩, hinv.done⟩
  | @loaded xdmpFiles keys db survivors hphase hstage hload hsurvivors =>
      obtain ⟨hne, hkeys⟩ := (hinv.of_merging hphase).1.of_load hstage
      exact ⟨last, { hinv.over hinv.dir hsurvivors with
        running := .inl rfl
        done := fun _ => hinv.listing.seeded hstart hvalid hne hkeys hload }⟩
  | killed hsurvivors => exact ⟨last, hinv.over hinv.dir hsurvivors⟩
  | killedMerge hphase hcut hsurvivors =>
      obtain ⟨hat, -⟩ := hinv.of_merging hphase
      exact ⟨last, hinv.over (hat.cut hinv.dir hinv.listing hcut) hsurvivors⟩
  | killedLoad hphase hstage hfresh hbatches hsurvivors =>
      obtain ⟨-, hdone⟩ := hinv.of_merging hphase
      refine ⟨last, { hinv.over hinv.dir hsurvivors with done := fun h => ?_ }⟩
      rw [hdone] at h
      cases h
  | storeRemoved hphase =>
      exact ⟨last, { hinv with
        running := .inl hphase
        done := fun h => absurd h Bool.false_ne_true }⟩

theorem ResumedRun.Fresh.inv (hfresh : s.Fresh) : ResumeInv args chain s [] := by
  obtain ⟨hrun, hmerge, hdone⟩ := hfresh
  exact
    { run := ⟨_, _, _, hrun.inv⟩
      listing := .nil chain
      closed := fun _ hmem => absurd hmem List.not_mem_nil
      dir := by
        rw [hmerge]
        refine ⟨fun _ hnone => ?_, .empty _, .empty _⟩
        cases hnone
      running := .inl (congrArg BulkRun.phase hrun)
      done := by
        rw [hdone]
        exact fun h => absurd h Bool.false_ne_true }

/-- **The run lemma.** -/
theorem ResumeInv.reachable (hstart : args.start = 0) (hvalid : ValidChain chain)
    (hreach : Transition.Reachable ResumedRun.Fresh (WholeStep args chain) s) :
    ∃ last, ResumeInv args chain s last := by
  induction hreach with
  | start hfresh => exact ⟨[], hfresh.inv⟩
  | next _ hstep ih =>
      obtain ⟨last, hinv⟩ := ih
      exact hinv.step hstart hvalid hstep

end Step

theorem WholeStep.of_concat {args : OrchestratorArgs} {chain : Chain} {s s' : ResumedRun}
    (hstep : ResumeStep args chain s s') (hstage : s'.merge.stage = .concat) :
    WholeStep args chain s s' := by
  refine ⟨hstep, ?_⟩
  rintro ⟨-, found, hlisted⟩
  rw [hstage] at hlisted
  cases hlisted

section Completion

variable {args : OrchestratorArgs} {chain : Chain} {s : ResumedRun} {last : List Dump}
  {keys : DerivedKeys}

/-- The steps of a merge are steps of the run. -/
theorem ResumedRun.merges {step : ResumedRun → ResumedRun → Prop} {run : BulkRun}
    {m m' : MergeState} {db : Db} {succeeded : Bool}
    (hstep : ∀ m m', MergeStep args run.dir.found m m' →
      step ⟨run, m, db, succeeded⟩ ⟨run, m', db, succeeded⟩)
    (hrun : Relation.ReflTransGen (MergeStep args run.dir.found) m m') :
    Relation.ReflTransGen step ⟨run, m, db, succeeded⟩ ⟨run, m', db, succeeded⟩ :=
  hrun.lift (fun m => ResumedRun.mk run m db succeeded) hstep

/-- **A whole directory can be merged**, whatever was killed before. -/
theorem ResumeInv.exists_merged (hinv : ResumeInv args chain s last) (hwhole : s.run.dir.Whole)
    (hkeys : mergeParsed args s.run.dir.found = .ok keys) :
    ∃ dir, Relation.ReflTransGen (MergeStep args s.run.dir.found) ⟨s.merge.dir, .concat⟩
      ⟨dir, .load keys⟩ := by
  obtain ⟨outs, spds, metas, hrun⟩ := hinv.run
  obtain ⟨outs', spds', metas', hlisting⟩ :=
    hrun.wholeListing hwhole hinv.listing.chunks hinv.closed
  have hall := hkeys
  simp only [mergeParsed, Fallible.bind_eq_ok_iff, Fallible.mapError_eq_ok_iff] at hall
  obtain ⟨allOutputs, hfirst, allSpends, hsecond, allMeta, hthird, -⟩ := hall
  obtain ⟨houts, hfound⟩ := hlisting.concatenated ⟨hfirst, hsecond, hthird⟩
  rw [hfound] at hkeys ⊢
  exact Bulk.exists_merged (chunkFiles_current _ outs') hkeys
    (concatReusable_eq_false hinv.dir.allMeta)
    (fun all hall => hinv.dir.outputsSorted.right outs' all houts hlisting.last_subset hall)
    (fun all hall => hinv.dir.spendsSorted.right outs' all houts hlisting.last_subset hall)

/-- A run that is started on a whole directory comes to its load. -/
theorem ResumeInv.exists_resumed (hinv : ResumeInv args chain s last)
    (hphase : s.run.phase = .stopped) (hwhole : s.run.dir.Whole)
    (hskip : s.run.dir.resumeSkipsParse = true)
    (hkeys : mergeParsed args s.run.dir.found = .ok keys) :
    ∃ dir, Relation.ReflTransGen (WholeStep args chain) s
      { s with
        run := { s.run with phase := .merging [] }
        merge := ⟨dir, .load keys⟩
        succeeded := false } := by
  obtain ⟨dir, hrun⟩ := hinv.exists_merged hwhole hkeys
  have hstarted : WholeStep args chain s
      { s with
        run := { s.run with phase := .merging [] }
        merge := ⟨s.merge.dir, .concat⟩
        succeeded := false } := by
    have hstart : ResumeStep args chain s _ := .started hphase
    rw [firstPhase, if_pos hskip] at hstart
    exact .of_concat hstart rfl
  refine ⟨dir, .head hstarted (ResumedRun.merges (fun m m' hstep => ?_) hrun)⟩
  exact ⟨.merged rfl hstep, fun _ => hwhole⟩

end Completion

/-! ### Two chunks, one worker each -/

/-- The arguments of the runs below. -/
def smallArgs : OrchestratorArgs := ⟨⟨⟨1, 1, true⟩, ⟨1, 0⟩, 3⟩, 0, none⟩

def lowDump : Dump := ⟨0, [firstBlock]⟩

def highDump : Dump := ⟨1, [spendingBlock]⟩

/-- Both workers are running. -/
theorem reachable_launched : Transition.Reachable ResumedRun.Fresh
    (WholeStep smallArgs [spendingBlock, firstBlock])
    ⟨⟨⟨[highDump, lowDump], [], [], []⟩, .parsing [highDump, lowDump] [highDump, lowDump],
        [⟨lowDump, .outputs, false⟩, ⟨highDump, .outputs, false⟩]⟩,
      ⟨.empty, .concat⟩, ∅, false⟩ := by
  have hlow : lowDump.Of [spendingBlock, firstBlock] := ⟨List.cons_ne_nil _ _, rfl⟩
  have hhigh : highDump.Of [spendingBlock, firstBlock] := ⟨List.cons_ne_nil _ _, rfl⟩
  have hstart : Transition.Reachable ResumedRun.Fresh
      (WholeStep smallArgs [spendingBlock, firstBlock])
      ⟨⟨.empty, .stopped, []⟩, ⟨.empty, .concat⟩, ∅, false⟩ := .start ⟨rfl, rfl, rfl⟩
  have hrunning : ∀ {phase phase' : RunPhase}, phase ≠ .stopped → phase' ≠ .stopped →
      (phase' = .stopped ↔ phase = .stopped) := fun h h' => iff_of_false h' h
  have hstarted := hstart.next (.of_concat (.started rfl) rfl)
  have hdumped := ((hstarted.next (.of_concat (.worked (.dumpedChunk lowDump rfl hlow)
    (hrunning (fun h => nomatch h) fun h => nomatch h)) rfl)).next
      (.of_concat (.worked (.dumpedChunk highDump rfl hhigh)
        (hrunning (fun h => nomatch h) fun h => nomatch h)) rfl)).next
      (.of_concat (.worked (.dumped rfl)
        (hrunning (fun h => nomatch h) fun h => nomatch h)) rfl)
  have halone : ∀ worker ∈ [Worker.mk highDump .outputs false], worker.dump ≠ lowDump := by
    rw [List.forall_mem_singleton]
    intro heq
    cases congrArg Dump.firstHeight heq
  have hfirst : highDump ∈ [highDump, lowDump] := List.mem_cons_self
  have hsecond : lowDump ∈ [highDump, lowDump] := List.mem_cons_of_mem _ List.mem_cons_self
  exact (hdumped.next (.of_concat (.worked
    (.launched rfl hfirst rfl fun _ hmem => absurd hmem List.not_mem_nil)
    (hrunning (fun h => nomatch h) fun h => nomatch h)) rfl)).next
    (.of_concat (.worked (.launched rfl hsecond rfl halone)
      (hrunning (fun h => nomatch h) fun h => nomatch h)) rfl)

/-- The worker of the low chunk is done, and the run is killed. -/
theorem exists_killedParse : ∃ s, Transition.Reachable ResumedRun.Fresh
    (WholeStep smallArgs [spendingBlock, firstBlock]) s ∧ s.run.phase = .stopped ∧
      s.run.dir.Whole ∧ s.run.dir.resumeSkipsParse = true ∧ s.db = ∅ ∧
        s.run.dir.found = chunkFiles smallArgs.network [lowDump] := by
  have hclosed := ((reachable_launched.next (.of_concat (.worked
    (.closedOutputs List.mem_cons_self) Iff.rfl) rfl)).next (.of_concat (.worked
      (.closedSpends List.mem_cons_self) Iff.rfl) rfl)).next (.of_concat (.worked
        (.closedMeta rfl List.mem_cons_self) (iff_of_false (fun h => nomatch h)
          fun h => nomatch h)) rfl)
  have hkilled := hclosed.next (.of_concat (.killed (List.nil_subset _)) rfl)
  have hfound : chunkFiles smallArgs.network [lowDump] = ⟨findFiles [parseOutputs _ lowDump],
      findFiles [parseSpends _ lowDump], findFiles [parseMeta _ lowDump]⟩ :=
    ParsedFiles.ext (List.mergeSort_singleton _).symm (List.mergeSort_singleton _).symm
      (List.mergeSort_singleton _).symm
  refine ⟨_, hkilled, rfl, ⟨?_, ?_⟩, rfl, rfl, hfound.symm⟩
  · exact List.forall_mem_singleton.mpr ⟨_, List.mem_cons_self, rfl, rfl⟩
  · exact ⟨_, List.mem_cons_self, rfl⟩

/-- The outputs of the high chunk are finished as well when the run is killed, and the next run
skips the parse. -/
theorem exists_unpaired : ∃ s, Transition.Reachable ResumedRun.Fresh
    (WholeStep smallArgs [spendingBlock, firstBlock]) s ∧ s.run.phase = .merging [] ∧
      s.merge = ⟨.empty, .concat⟩ ∧ s.db = ∅ ∧
        s.run.dir.found = ⟨[lowDump, highDump].map (parseOutputs smallArgs.network),
          [parseSpends smallArgs.network lowDump], [parseMeta smallArgs.network lowDump]⟩ := by
  have hhigh : Worker.mk highDump .outputs false ∈
      [Worker.mk lowDump .outputs false, Worker.mk highDump .outputs false] :=
    List.mem_cons_of_mem _ List.mem_cons_self
  have hlow : Worker.mk lowDump .outputs false ∈ [Worker.mk highDump .spends false,
      Worker.mk lowDump .outputs false] := List.mem_cons_of_mem _ List.mem_cons_self
  have hclosed := (((reachable_launched.next (.of_concat (.worked
    (.closedOutputs hhigh) Iff.rfl) rfl)).next (.of_concat (.worked
      (.closedOutputs hlow) Iff.rfl) rfl)).next (.of_concat (.worked
        (.closedSpends List.mem_cons_self) Iff.rfl) rfl)).next (.of_concat (.worked
          (.closedMeta rfl List.mem_cons_self) (iff_of_false (fun h => nomatch h)
            fun h => nomatch h)) rfl)
  have hstarted := (hclosed.next (.of_concat (.killed (List.nil_subset _)) rfl)).next
    (.of_concat (.started rfl) rfl)
  have hordered : outPath .outputs 0 0 ≤ outPath .outputs 1 1 := by decide
  have hother : outPath .outputs 1 1 ≠ outPath .outputs 0 0 := by decide
  refine ⟨_, hstarted, rfl, rfl, rfl, ParsedFiles.ext ?_ (List.mergeSort_singleton _)
    (List.mergeSort_singleton _)⟩
  have hrenamed : renameInto [parseOutputs smallArgs.network highDump]
      (parseOutputs smallArgs.network lowDump) =
        [lowDump, highDump].map (parseOutputs smallArgs.network) := by
    rw [renameInto, List.filter_eq_self.mpr]
    · rfl
    · exact List.forall_mem_singleton.mpr (decide_eq_true hother)
  refine (congrArg findFiles hrenamed).trans (List.mergeSort_of_pairwise ?_)
  exact List.pairwise_pair.mpr (decide_eq_true hordered)

end Bulk

end UtxoTracker

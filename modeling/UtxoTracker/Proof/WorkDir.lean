import UtxoTracker.Bulk.WorkDir
import UtxoTracker.Lib.Transition
import UtxoTracker.Proof.Start
import UtxoTracker.Safety.BlockDump
/-!
# What the runs leave on a work directory

Of every range the outputs are closed first, then the spends, then the blocks. What is concatenated
without a gap, from the genesis block on, is a part of the chain.
-/

namespace UtxoTracker

open Bulk

/-! ### The files of a range -/

namespace Bulk

/-- The name of a stream's file: the stream, then the two heights between dashes. -/
theorem exists_stem (magic : Magic) : ∃ stem : List Char, ∀ firstHeight lastHeight,
    (outPath magic firstHeight lastHeight).toList =
      stem ++ ((h8 firstHeight).toList ++
        '-' :: 'h' :: ((h8 lastHeight).toList ++ ".dat".toList)) := by
  have hdash : "-h".toList = ['-', 'h'] := by decide
  cases magic with
  | outputs => exact ⟨"outputs".toList ++ ['-', 'h'], fun _ _ => by simp [outPath, hdash]⟩
  | spends => exact ⟨"spends".toList ++ ['-', 'h'], fun _ _ => by simp [outPath, hdash]⟩
  | blockMeta => exact ⟨"meta".toList ++ ['-', 'h'], fun _ _ => by simp [outPath, hdash]⟩

/-- **No two ranges share a file name.** -/
theorem outPath_inj {magic : Magic} {firstHeight lastHeight firstHeight' lastHeight' : Nat}
    (heq : outPath magic firstHeight lastHeight = outPath magic firstHeight' lastHeight') :
    firstHeight = firstHeight' ∧ lastHeight = lastHeight' := by
  obtain ⟨stem, hstem⟩ := exists_stem magic
  have hlist := congrArg String.toList heq
  rw [hstem, hstem, List.append_cancel_left_eq] at hlist
  have hend : ∀ n, '-' ∉ 'h' :: ((h8 n).toList ++ ".dat".toList) := by
    intro n
    rw [List.mem_cons, List.mem_append, not_or, not_or]
    exact ⟨by decide, Xdmp.dash_notMem_padStart 8 n, by decide⟩
  obtain ⟨hfirst, -, hlast⟩ := (List.append_cons_inj_of_notMem
    (Xdmp.dash_notMem_padStart 8 firstHeight) (hend lastHeight)).mp hlist
  rw [List.cons.injEq] at hlast
  exact ⟨Xdmp.padStart_injective 8 hfirst,
    Xdmp.padStart_injective 8 (List.append_cancel_right hlast.2)⟩

/-- A chunk of a chain is known by its range. -/
theorem Dump.Of.eq {chain : Chain} {dump other : Dump} (hdump : dump.Of chain)
    (hother : other.Of chain) (hfirst : dump.firstHeight = other.firstHeight)
    (hlast : dump.lastHeight = other.lastHeight) : dump = other := by
  have hlength : dump.blocks.length = other.blocks.length := by
    have := List.length_pos_of_ne_nil hdump.nonempty
    have := List.length_pos_of_ne_nil hother.nonempty
    rw [Dump.lastHeight, Dump.lastHeight] at hlast
    omega
  have hblocks : dump.blocks = other.blocks := by
    rw [hdump.blocks, hother.blocks, hfirst, hlength]
  cases dump
  cases other
  simp_all

section Stream

variable {ρ : Type} {network : Network} {magic : Magic} {recordSize : Nat} {records : Dump → List ρ}
  {chain : Chain} {dumps : List Dump} {dump : Dump}

/-- The file of a stream that a worker closes for its dump. -/
def fileOf (network : Network) (magic : Magic) (recordSize : Nat) (records : Dump → List ρ)
    (dump : Dump) : DatFile ρ :=
  closeFile network dump magic recordSize (records dump)

theorem path_fileOf_inj {other : Dump} (hdump : dump.Of chain) (hother : other.Of chain)
    (heq : (fileOf network magic recordSize records dump).path =
      (fileOf network magic recordSize records other).path) : dump = other := by
  obtain ⟨hfirst, hlast⟩ := outPath_inj heq
  exact hdump.eq hother hfirst hlast

theorem renameInto_fileOf (hdumps : ∀ dump ∈ dumps, dump.Of chain) (hdump : dump.Of chain) :
    renameInto (dumps.map (fileOf network magic recordSize records))
        (fileOf network magic recordSize records dump) =
      (dump :: dumps.filter fun other => decide (other ≠ dump)).map
        (fileOf network magic recordSize records) := by
  rw [renameInto, List.map_cons, List.filter_map]
  refine congrArg _ (congrArg (List.map _) (List.filter_congr ?_))
  intro other hmem
  apply decide_eq_decide.mpr
  apply not_congr
  constructor
  · exact path_fileOf_inj (hdumps other hmem) hdump
  · rintro rfl
    rfl

theorem mem_of_existingDat (hdumps : ∀ dump ∈ dumps, dump.Of chain) (hdump : dump.Of chain)
    (hcomplete : existingDatLooksComplete (dumps.map (fileOf network magic recordSize records))
      (outPath magic dump.firstHeight dump.lastHeight) = true) : dump ∈ dumps := by
  unfold existingDatLooksComplete at hcomplete
  split at hcomplete
  · cases hcomplete
  · next file hfound =>
      have hpath := List.find?_some hfound
      obtain ⟨other, hother, rfl⟩ := List.mem_map.mp (List.mem_of_find?_eq_some hfound)
      have heq : other = dump :=
        path_fileOf_inj (hdumps other hother) hdump (of_decide_eq_true hpath)
      exact heq ▸ hother

/-- What `findFiles` finds are the files of the same dumps. -/
theorem exists_findFiles (file : Dump → DatFile ρ) (dumps : List Dump) :
    ∃ found : List Dump, (∀ dump, dump ∈ found ↔ dump ∈ dumps) ∧
      findFiles (dumps.map file) = found.map file := by
  refine ⟨dumps.mergeSort fun dump other => decide ((file dump).path ≤ (file other).path), ?_, ?_⟩
  · exact fun dump => List.mem_mergeSort
  · rw [findFiles]
    symm
    apply List.map_mergeSort
    intro _ _ _ _
    rfl

/-! ### What can be concatenated -/

theorem firstHeight_of_checkInputHeader {file : DatFile ρ} {first : DatHeader}
    {prevLastHeight : Nat}
    (hcheck : checkInputHeader file (some (first, prevLastHeight)) = .ok ()) :
    file.header.firstHeight = prevLastHeight + 1 := by
  by_contra hgap
  unfold checkInputHeader at hcheck
  split_ifs at hcheck
  cases hmixed : mixedField first file.header with
  | some field => simp [hmixed] at hcheck
  | none => simp [hmixed, hgap] at hcheck

theorem contiguous_of_concatInto {output file : DatFile ρ} {prevLastHeight : Nat}
    (hdumps : ∀ dump ∈ dumps, dump.blocks ≠ [])
    (hrun : concatInto output prevLastHeight
      (dumps.map (fileOf network magic recordSize records)) = .ok file) :
    Contiguous (prevLastHeight + 1) dumps := by
  induction dumps generalizing output prevLastHeight with
  | nil => trivial
  | cons dump rest ih =>
      obtain ⟨hdump, hrest⟩ := List.forall_mem_cons.mp hdumps
      rw [List.map_cons, concatInto] at hrun
      split at hrun
      · cases hrun
      · next hcheck =>
          have hfirst : dump.firstHeight = prevLastHeight + 1 :=
            firstHeight_of_checkInputHeader hcheck
          have hlength := List.length_pos_of_ne_nil hdump
          have hlast : (fileOf network magic recordSize records dump).header.lastHeight + 1 =
              prevLastHeight + 1 + dump.blocks.length := by
            have : (fileOf network magic recordSize records dump).header.lastHeight =
                dump.firstHeight + dump.blocks.length - 1 := rfl
            omega
          refine ⟨hfirst, hdump, ?_⟩
          rw [← hlast]
          exact ih hrest hrun

/-- **The concatenation succeeds on consecutive ranges only**, wherever they start. -/
theorem contiguous_of_concat {file : DatFile ρ} {path : String}
    (hdumps : ∀ dump ∈ dumps, dump.blocks ≠ [])
    (hrun : concatFilesWithHeader path (dumps.map (fileOf network magic recordSize records)) =
      .ok file) : ∃ start, Contiguous start dumps := by
  cases dumps with
  | nil => exact ⟨0, trivial⟩
  | cons dump rest =>
      obtain ⟨hdump, hrest⟩ := List.forall_mem_cons.mp hdumps
      rw [List.map_cons, concatFilesWithHeader] at hrun
      split at hrun
      · cases hrun
      · have hlength := List.length_pos_of_ne_nil hdump
        have hlast : (fileOf network magic recordSize records dump).header.lastHeight + 1 =
            dump.firstHeight + dump.blocks.length := by
          have : (fileOf network magic recordSize records dump).header.lastHeight =
              dump.firstHeight + dump.blocks.length - 1 := rfl
          omega
        refine ⟨dump.firstHeight, rfl, hdump, ?_⟩
        rw [← hlast]
        exact contiguous_of_concatInto hrest hrun

end Stream

theorem parseOutputs_eq (network : Network) :
    parseOutputs network = fileOf network .outputs outputsRecordSize fun dump =>
      dump.heights.flatMap fun entry => blockOutputs entry.1 entry.2 := rfl

theorem parseSpends_eq (network : Network) :
    parseSpends network = fileOf network .spends spendsRecordSize fun dump =>
      dump.heights.flatMap fun entry => blockSpends entry.1 := rfl

theorem parseMeta_eq (network : Network) :
    parseMeta network = fileOf network .blockMeta 0 fun dump =>
      dump.heights.map fun entry => blockMeta entry.1 entry.2 := rfl

/-! ### Consecutive ranges -/

theorem Contiguous.le {start : Nat} {dumps : List Dump} (hcontiguous : Contiguous start dumps) :
    ∀ dump ∈ dumps, start ≤ dump.firstHeight := by
  induction dumps generalizing start with
  | nil => exact fun _ hmem => absurd hmem List.not_mem_nil
  | cons dump rest ih =>
      obtain ⟨hfirst, -, hrest⟩ := hcontiguous
      rw [List.forall_mem_cons]
      refine ⟨hfirst.ge, ?_⟩
      intro other hmem
      have hle := ih hrest other hmem
      omega

theorem Contiguous.pairwise {start : Nat} {dumps : List Dump}
    (hcontiguous : Contiguous start dumps) :
    dumps.Pairwise fun dump other => dump.firstHeight < other.firstHeight := by
  induction dumps generalizing start with
  | nil => exact .nil
  | cons dump rest ih =>
      obtain ⟨hfirst, hblocks, hrest⟩ := hcontiguous
      have hlength := List.length_pos_of_ne_nil hblocks
      refine .cons ?_ (ih hrest)
      intro other hmem
      have hle := hrest.le other hmem
      omega

/-- Consecutive ranges are listed in one way. -/
theorem Contiguous.ext {start start' : Nat} {dumps others : List Dump}
    (hdumps : Contiguous start dumps) (hothers : Contiguous start' others)
    (hmem : ∀ dump, dump ∈ dumps ↔ dump ∈ others) : dumps = others := by
  have hnodup : ∀ {start : Nat} {dumps : List Dump}, Contiguous start dumps → dumps.Nodup := by
    intro start dumps hcontiguous
    apply hcontiguous.pairwise.imp
    rintro dump _ hlt rfl
    exact lt_irrefl _ hlt
  have hperm : dumps.Perm others :=
    (List.perm_ext_iff_of_nodup (hnodup hdumps) (hnodup hothers)).mpr hmem
  refine hperm.eq_of_pairwise ?_ hdumps.pairwise hothers.pairwise
  intro dump other _ _ hlt hgt
  exact absurd hlt hgt.asymm

/-- Consecutive chunks of a chain are its blocks from their start on. -/
theorem Contiguous.blocks_eq {chain : Chain} {start : Nat} {dumps : List Dump}
    (hcontiguous : Contiguous start dumps) (hdumps : ∀ dump ∈ dumps, dump.Of chain) :
    dumps.flatMap Dump.blocks =
      (chain.reverse.drop start).take (dumps.flatMap Dump.blocks).length := by
  induction dumps generalizing start with
  | nil => rfl
  | cons dump rest ih =>
      obtain ⟨rfl, -, hrest⟩ := hcontiguous
      obtain ⟨hdump, hall⟩ := List.forall_mem_cons.mp hdumps
      rw [List.flatMap_cons, List.length_append, List.take_add, ← hdump.blocks, List.drop_drop,
        ← ih hrest hall]

/-- Consecutive chunks of a chain, from the genesis block on, are its blocks up to some height. -/
theorem exists_cutInto {chain : Chain} {dumps : List Dump} (hcontiguous : Contiguous 0 dumps)
    (hdumps : ∀ dump ∈ dumps, dump.Of chain) : ∃ below, below <:+ chain ∧ CutInto below dumps := by
  have hblocks := hcontiguous.blocks_eq hdumps
  rw [List.drop_zero, List.take_reverse] at hblocks
  exact ⟨_, List.drop_suffix _ _, hcontiguous, hblocks⟩

/-- A chunk ends where the consecutive ranges end, or before. -/
theorem Contiguous.le_total {start : Nat} {dumps : List Dump}
    (hcontiguous : Contiguous start dumps) :
    ∀ dump ∈ dumps, dump.firstHeight + dump.blocks.length ≤
      start + (dumps.flatMap Dump.blocks).length := by
  induction dumps generalizing start with
  | nil => exact fun _ hmem => absurd hmem List.not_mem_nil
  | cons dump rest ih =>
      obtain ⟨hfirst, -, hrest⟩ := hcontiguous
      rw [List.flatMap_cons, List.length_append, List.forall_mem_cons]
      refine ⟨by omega, ?_⟩
      intro other hmem
      have hle := ih hrest other hmem
      omega

/-- Some chunk ends where the consecutive ranges end. -/
theorem Contiguous.exists_last {start : Nat} {dumps : List Dump}
    (hcontiguous : Contiguous start dumps) (hne : dumps ≠ []) :
    ∃ dump ∈ dumps, dump.firstHeight + dump.blocks.length =
      start + (dumps.flatMap Dump.blocks).length := by
  induction dumps generalizing start with
  | nil => exact absurd rfl hne
  | cons dump rest ih =>
      obtain ⟨hfirst, -, hrest⟩ := hcontiguous
      rw [List.flatMap_cons, List.length_append]
      by_cases hnil : rest = []
      · refine ⟨dump, List.mem_cons_self, ?_⟩
        rw [hnil, List.flatMap_nil, List.length_nil]
        omega
      · obtain ⟨last, hmem, hlast⟩ := ih hrest hnil
        exact ⟨last, List.mem_cons_of_mem _ hmem, by omega⟩

/-! ### What the runs leave -/

/-- The finished files are those of chunks of the chain, for each chunk the first ones of the
three. -/
structure Parsed (network : Network) (chain : Chain) (w : WorkDir)
    (outs spds metas : List Dump) : Prop where
  outputs : w.outputs = outs.map (parseOutputs network)
  spends : w.spends = spds.map (parseSpends network)
  blocks : w.blocks = metas.map (parseMeta network)
  chunks : ∀ dump ∈ outs, dump.Of chain
  spends_first : spds ⊆ outs
  blocks_first : metas ⊆ spds

/-- The chunks of a list, one of them closed anew. -/
def closed (dump : Dump) (dumps : List Dump) : List Dump :=
  dump :: dumps.filter fun other => decide (other ≠ dump)

theorem mem_closed {dump other : Dump} {dumps : List Dump} :
    other ∈ closed dump dumps ↔ other = dump ∨ other ∈ dumps := by
  by_cases heq : other = dump
  · simp [closed, heq]
  · simp [closed, heq]

section Parsed

variable {network : Network} {chain : Chain} {w : WorkDir} {outs spds metas : List Dump}
  {dump : Dump}

theorem Parsed.chunk_of_spends (hparsed : Parsed network chain w outs spds metas) :
    ∀ dump ∈ spds, dump.Of chain :=
  fun dump hmem => hparsed.chunks dump (hparsed.spends_first hmem)

theorem Parsed.chunk_of_blocks (hparsed : Parsed network chain w outs spds metas) :
    ∀ dump ∈ metas, dump.Of chain :=
  fun dump hmem => hparsed.chunk_of_spends dump (hparsed.blocks_first hmem)

theorem Parsed.closeOutputs (hparsed : Parsed network chain w outs spds metas)
    (hdump : dump.Of chain) :
    Parsed network chain (w.closeOutputs network dump) (closed dump outs) spds metas where
  outputs := by
    rw [WorkDir.closeOutputs, hparsed.outputs, parseOutputs_eq]
    exact renameInto_fileOf hparsed.chunks hdump
  spends := hparsed.spends
  blocks := hparsed.blocks
  chunks := by
    intro other hmem
    rcases mem_closed.mp hmem with rfl | hmem
    · exact hdump
    · exact hparsed.chunks other hmem
  spends_first := fun _ hmem => mem_closed.mpr (.inr (hparsed.spends_first hmem))
  blocks_first := hparsed.blocks_first

theorem Parsed.closeSpends (hparsed : Parsed network chain w outs spds metas)
    (hdump : dump ∈ outs) :
    Parsed network chain (w.closeSpends network dump) outs (closed dump spds) metas where
  outputs := hparsed.outputs
  spends := by
    rw [WorkDir.closeSpends, hparsed.spends, parseSpends_eq]
    exact renameInto_fileOf hparsed.chunk_of_spends (hparsed.chunks dump hdump)
  blocks := hparsed.blocks
  chunks := hparsed.chunks
  spends_first := by
    intro other hmem
    rcases mem_closed.mp hmem with rfl | hmem
    · exact hdump
    · exact hparsed.spends_first hmem
  blocks_first := fun _ hmem => mem_closed.mpr (.inr (hparsed.blocks_first hmem))

theorem Parsed.closeMeta (hparsed : Parsed network chain w outs spds metas)
    (hdump : dump ∈ spds) :
    Parsed network chain (w.closeMeta network dump) outs spds (closed dump metas) where
  outputs := hparsed.outputs
  spends := hparsed.spends
  blocks := by
    rw [WorkDir.closeMeta, hparsed.blocks, parseMeta_eq]
    exact renameInto_fileOf hparsed.chunk_of_blocks (hparsed.chunk_of_spends dump hdump)
  chunks := hparsed.chunks
  spends_first := hparsed.spends_first
  blocks_first := by
    intro other hmem
    rcases mem_closed.mp hmem with rfl | hmem
    · exact hdump
    · exact hparsed.blocks_first hmem

/-- A worker that skips its range finds all three files there. -/
theorem Parsed.mem_of_looksComplete (hparsed : Parsed network chain w outs spds metas)
    (hdump : dump.Of chain) (hcomplete : w.looksComplete dump = true) : dump ∈ metas := by
  rw [WorkDir.looksComplete, Bool.and_eq_true, hparsed.blocks, parseMeta_eq] at hcomplete
  exact mem_of_existingDat hparsed.chunk_of_blocks hdump hcomplete.2

end Parsed

/-- What the workers of a state have closed. -/
def Worker.Done (outs spds : List Dump) (worker : Worker) : Prop :=
  match worker.closing with
  | .outputs => True
  | .spends => worker.dump ∈ outs
  | .blocks => worker.dump ∈ spds

/-- What the phase of a run says about the parsed files. -/
def RunPhase.Of (chain : Chain) (metas : List Dump) : RunPhase → Prop
  | .stopped | .dumping => True
  | .parsing xdmpFiles pending =>
      (∀ dump ∈ pending, dump.Of chain) ∧ ∀ dump ∈ xdmpFiles, dump ∈ pending ∨ dump ∈ metas
  | .merging xdmpFiles => xdmpFiles ⊆ metas

/-- **The invariant of the runs.** -/
structure RunInv (network : Network) (chain : Chain) (s : BulkRun)
    (outs spds metas : List Dump) : Prop where
  parsed : Parsed network chain s.dir outs spds metas
  dumps : ∀ dump ∈ s.dir.dumps, dump.Of chain
  workers : ∀ worker ∈ s.workers, worker.dump.Of chain ∧ worker.Done outs spds
  phase : s.phase.Of chain metas

theorem BulkRun.Fresh.inv {network : Network} {chain : Chain} {s : BulkRun} (hfresh : s.Fresh) :
    RunInv network chain s [] [] [] := by
  subst hfresh
  refine ⟨⟨rfl, rfl, rfl, ?_, List.Subset.refl _, List.Subset.refl _⟩, ?_, ?_, trivial⟩
  all_goals exact fun _ hmem => absurd hmem List.not_mem_nil

section Step

variable {network : Network} {chain : Chain} {s s' : BulkRun} {outs spds metas : List Dump}

/-- More files closed. -/
theorem Worker.Done.mono {outs' spds' : List Dump} {worker : Worker} (hdone : worker.Done outs spds)
    (houts : outs ⊆ outs') (hspds : spds ⊆ spds') : worker.Done outs' spds' := by
  obtain ⟨dump, closing, orphaned⟩ := worker
  cases closing with
  | outputs => trivial
  | spends => exact houts hdone
  | blocks => exact hspds hdone

/-- A worker has closed as much when its run is over. -/
theorem Worker.Done.orphan {worker : Worker} (hdone : worker.Done outs spds) :
    worker.orphan.Done outs spds := hdone

theorem RunPhase.Of.mono {phase : RunPhase} {metas' : List Dump} (hphase : phase.Of chain metas)
    (hmetas : metas ⊆ metas') : phase.Of chain metas' := by
  cases phase with
  | stopped => trivial
  | dumping => trivial
  | parsing xdmpFiles pending =>
      refine ⟨hphase.1, ?_⟩
      intro dump hmem
      exact (hphase.2 dump hmem).imp_right fun hparsed => hmetas hparsed
  | merging xdmpFiles => exact fun _ hmem => hmetas (hphase hmem)

theorem subset_closed (dump : Dump) (dumps : List Dump) : dumps ⊆ closed dump dumps :=
  fun _ hmem => mem_closed.mpr (.inr hmem)

/-- A worker of the run has exited, and its chunk has its blocks. -/
theorem RunPhase.Of.exited {xdmpFiles pending : List Dump} {dump : Dump}
    (hphase : (RunPhase.parsing xdmpFiles pending).Of chain metas) (hdump : dump ∈ metas) :
    (RunPhase.parsing xdmpFiles (pending.erase dump)).Of chain metas := by
  obtain ⟨hpending, hrest⟩ := hphase
  refine ⟨fun other hmem => hpending other (List.mem_of_mem_erase hmem), ?_⟩
  intro other hmem
  by_cases heq : other = dump
  · exact .inr (heq ▸ hdump)
  · exact (hrest other hmem).imp_left fun hmem => (List.mem_erase_of_ne heq).mpr hmem

/-- **The step lemma**: for each chunk, what is closed are the first ones of its three files. -/
theorem RunInv.step (hinv : RunInv network chain s outs spds metas)
    (hstep : BulkStep network chain s s') :
    ∃ outs' spds' metas', RunInv network chain s' outs' spds' metas' := by
  obtain ⟨hparsed, hdumps, hworkers, hphase⟩ := hinv
  cases hstep with
  | started skipDump skipParse hstopped =>
      refine ⟨_, _, _, hparsed, hdumps, hworkers, ?_⟩
      unfold firstPhase
      split_ifs
      · exact List.nil_subset _
      · exact ⟨hdumps, fun _ hmem => .inl hmem⟩
      · trivial
  | dumpedChunk dump hdumping hdump =>
      refine ⟨_, _, _, ⟨hparsed.outputs, hparsed.spends, hparsed.blocks, hparsed.chunks,
        hparsed.spends_first, hparsed.blocks_first⟩, ?_, hworkers, hphase⟩
      intro other hmem
      rcases List.mem_cons.mp hmem with rfl | hmem
      · exact hdump
      · exact hdumps other (List.mem_of_mem_filter hmem)
  | dumped hdumping =>
      exact ⟨_, _, _, hparsed, hdumps, hworkers, hdumps, fun _ hmem => .inl hmem⟩
  | @skippedRange xdmpFiles pending dump hparsing hdump hcomplete =>
      rw [hparsing] at hphase
      have hmem := hparsed.mem_of_looksComplete (hphase.1 dump hdump) hcomplete
      exact ⟨_, _, _, hparsed, hdumps, hworkers, hphase.exited hmem⟩
  | @launched xdmpFiles pending dump hparsing hdump hcomplete halone =>
      refine ⟨_, _, _, hparsed, hdumps, ?_, hphase⟩
      rw [hparsing] at hphase
      exact List.forall_mem_cons.mpr ⟨⟨hphase.1 dump hdump, trivial⟩, hworkers⟩
  | @closedOutputs dump orphaned hworker =>
      have hchunk : dump.Of chain := (hworkers _ hworker).1
      refine ⟨closed dump outs, spds, metas, hparsed.closeOutputs hchunk, hdumps, ?_, hphase⟩
      rw [List.forall_mem_cons]
      refine ⟨⟨hchunk, mem_closed.mpr (.inl rfl)⟩, ?_⟩
      intro worker hmem
      obtain ⟨hof, hdone⟩ := hworkers worker (List.mem_of_mem_erase hmem)
      exact ⟨hof, hdone.mono (subset_closed dump outs) (List.Subset.refl _)⟩
  | @closedSpends dump orphaned hworker =>
      obtain ⟨hchunk, hclosed⟩ := hworkers _ hworker
      refine ⟨outs, closed dump spds, metas, hparsed.closeSpends hclosed, hdumps, ?_, hphase⟩
      rw [List.forall_mem_cons]
      refine ⟨⟨hchunk, mem_closed.mpr (.inl rfl)⟩, ?_⟩
      intro worker hmem
      obtain ⟨hof, hdone⟩ := hworkers worker (List.mem_of_mem_erase hmem)
      exact ⟨hof, hdone.mono (List.Subset.refl _) (subset_closed dump spds)⟩
  | @closedMeta xdmpFiles pending dump hparsing hworker =>
      obtain ⟨-, hclosed⟩ := hworkers _ hworker
      rw [hparsing] at hphase
      refine ⟨outs, spds, closed dump metas, hparsed.closeMeta hclosed, hdumps, ?_, ?_⟩
      · exact fun worker hmem => hworkers worker (List.mem_of_mem_erase hmem)
      · exact (hphase.mono (subset_closed dump metas)).exited (mem_closed.mpr (.inl rfl))
  | @orphanClosedMeta dump hworker =>
      obtain ⟨-, hclosed⟩ := hworkers _ hworker
      refine ⟨outs, spds, closed dump metas, hparsed.closeMeta hclosed, hdumps, ?_, ?_⟩
      · exact fun worker hmem => hworkers worker (List.mem_of_mem_erase hmem)
      · exact hphase.mono (subset_closed dump metas)
  | orphanFailed horphaned =>
      refine ⟨_, _, _, hparsed, hdumps, ?_, hphase⟩
      exact fun worker hmem => hworkers worker (List.mem_of_mem_erase hmem)
  | @parsed xdmpFiles hparsing =>
      rw [hparsing] at hphase
      refine ⟨_, _, _, ⟨hparsed.outputs, hparsed.spends, hparsed.blocks, hparsed.chunks,
        hparsed.spends_first, hparsed.blocks_first⟩, ?_, hworkers, ?_⟩
      · exact fun _ hmem => absurd hmem List.not_mem_nil
      · exact fun dump hmem => (hphase.2 dump hmem).resolve_left List.not_mem_nil
  | ended hsurvivors =>
      refine ⟨_, _, _, hparsed, hdumps, ?_, trivial⟩
      rw [List.forall_mem_map]
      intro worker hmem
      obtain ⟨hof, hdone⟩ := hworkers worker (hsurvivors hmem)
      exact ⟨hof, hdone.orphan⟩

theorem RunInv.reachable
    (hreach : Transition.Reachable BulkRun.Fresh (BulkStep network chain) s) :
    ∃ outs spds metas, RunInv network chain s outs spds metas := by
  induction hreach with
  | start hfresh => exact ⟨_, _, _, hfresh.inv⟩
  | next _ hstep ih =>
      obtain ⟨outs, spds, metas, hinv⟩ := ih
      exact hinv.step hstep

end Step

/-! ### What is merged -/

/-- What the merge finds: the files of these chunks. -/
structure WorkDir.Found (network : Network) (w : WorkDir) (outs spds metas : List Dump) : Prop where
  outputs : findFiles w.outputs = outs.map (parseOutputs network)
  spends : findFiles w.spends = spds.map (parseSpends network)
  blocks : findFiles w.blocks = metas.map (parseMeta network)

section Merge

variable {opts : BulkOptions} {network : Network} {chain : Chain} {w : WorkDir}
  {outs spds metas : List Dump} {db db' : Db}

theorem WorkDir.Found.mergeAndLoad {dumps : List Dump}
    (hfound : w.Found opts.network dumps dumps dumps) :
    w.mergeAndLoad opts db = bulkSync opts dumps db := by
  rw [WorkDir.mergeAndLoad, hfound.outputs, hfound.spends, hfound.blocks]
  rfl

theorem Parsed.exists_found (hparsed : Parsed network chain w outs spds metas) :
    ∃ outs' spds' metas', w.Found network outs' spds' metas' ∧
      (∀ dump, dump ∈ outs' ↔ dump ∈ outs) ∧ (∀ dump, dump ∈ spds' ↔ dump ∈ spds) ∧
        ∀ dump, dump ∈ metas' ↔ dump ∈ metas := by
  obtain ⟨outs', houts, houtputs⟩ := exists_findFiles (parseOutputs network) outs
  obtain ⟨spds', hspds, hspends⟩ := exists_findFiles (parseSpends network) spds
  obtain ⟨metas', hmetas, hblocks⟩ := exists_findFiles (parseMeta network) metas
  rw [← hparsed.outputs] at houtputs
  rw [← hparsed.spends] at hspends
  rw [← hparsed.blocks] at hblocks
  exact ⟨outs', spds', metas', ⟨houtputs, hspends, hblocks⟩, houts, hspds, hmetas⟩

/-- Three streams that concatenate come from one list of consecutive ranges. -/
theorem exists_contiguous_of_concats {allOutputs : DatFile OutputsRecord}
    {allSpends : DatFile SpendsRecord} {allMeta : DatFile MetaRecord}
    (hchunks : ∀ dump ∈ outs, dump.Of chain) (hspds : ∀ dump, dump ∈ spds ↔ dump ∈ outs)
    (hmetas : ∀ dump, dump ∈ metas ↔ dump ∈ outs)
    (houtputs : concatFilesWithHeader "all-outputs.dat" (outs.map (parseOutputs network)) =
      .ok allOutputs)
    (hspends : concatFilesWithHeader "all-spends.dat" (spds.map (parseSpends network)) =
      .ok allSpends)
    (hblocks : concatFilesWithHeader "all-meta.dat" (metas.map (parseMeta network)) =
      .ok allMeta) :
    ∃ start, Contiguous start outs ∧ spds = outs ∧ metas = outs := by
  rw [parseOutputs_eq] at houtputs
  rw [parseSpends_eq] at hspends
  rw [parseMeta_eq] at hblocks
  obtain ⟨start, hcontiguous⟩ :=
    contiguous_of_concat (fun dump hmem => (hchunks dump hmem).nonempty) houtputs
  obtain ⟨_, hcontiguous'⟩ :=
    contiguous_of_concat (fun dump hmem => (hchunks dump ((hspds dump).mp hmem)).nonempty) hspends
  obtain ⟨_, hcontiguous''⟩ :=
    contiguous_of_concat (fun dump hmem => (hchunks dump ((hmetas dump).mp hmem)).nonempty) hblocks
  exact ⟨start, hcontiguous, hcontiguous'.ext hcontiguous hspds,
    hcontiguous''.ext hcontiguous hmetas⟩

/-- The ranges that have outputs have their blocks. -/
theorem Parsed.paired_iff (hparsed : Parsed network chain w outs spds metas) :
    (∀ file ∈ w.outputs, ∃ other ∈ w.blocks,
      other.header.firstHeight = file.header.firstHeight ∧
        other.header.lastHeight = file.header.lastHeight) ↔ outs ⊆ metas := by
  rw [hparsed.outputs, hparsed.blocks]
  constructor
  · intro hpaired dump hmem
    obtain ⟨other, hother, hfirst, hlast⟩ := hpaired _ (List.mem_map_of_mem hmem)
    obtain ⟨dump', hmem', rfl⟩ := List.mem_map.mp hother
    have heq : dump' = dump :=
      (hparsed.chunk_of_blocks dump' hmem').eq (hparsed.chunks dump hmem) hfirst hlast
    exact heq ▸ hmem'
  · intro hsubset file hfile
    obtain ⟨dump, hmem, rfl⟩ := List.mem_map.mp hfile
    exact ⟨parseMeta network dump, List.mem_map_of_mem (hsubset hmem), rfl, rfl⟩

theorem Parsed.genesis_iff (hparsed : Parsed network chain w outs spds metas) :
    (∃ file ∈ w.blocks, file.header.firstHeight = 0) ↔ ∃ dump ∈ metas, dump.firstHeight = 0 := by
  rw [hparsed.blocks]
  constructor
  · rintro ⟨file, hfile, hzero⟩
    obtain ⟨dump, hmem, rfl⟩ := List.mem_map.mp hfile
    exact ⟨dump, hmem, hzero⟩
  · rintro ⟨dump, hmem, hzero⟩
    exact ⟨_, List.mem_map_of_mem hmem, hzero⟩

/-- In a whole directory the three streams are listed for the same chunks. -/
theorem Parsed.exists_whole (hparsed : Parsed network chain w outs spds metas) (hwhole : w.Whole) :
    ∃ outs' spds' metas', w.Found network outs' spds' metas' ∧
      (∀ dump, dump ∈ outs' ↔ dump ∈ outs) ∧ (∀ dump, dump ∈ spds' ↔ dump ∈ outs') ∧
        (∀ dump, dump ∈ metas' ↔ dump ∈ outs') ∧ ∃ first ∈ outs', first.firstHeight = 0 := by
  have hsubset := hparsed.paired_iff.mp hwhole.paired
  obtain ⟨first, hmem, hzero⟩ := hparsed.genesis_iff.mp hwhole.genesis
  obtain ⟨outs', spds', metas', hfound, houts, hspds, hmetas⟩ := hparsed.exists_found
  have hback : metas ⊆ outs := fun _ h => hparsed.spends_first (hparsed.blocks_first h)
  refine ⟨outs', spds', metas', hfound, houts, ?_, ?_, first, ?_, hzero⟩
  · intro dump
    rw [hspds, houts]
    exact ⟨fun h => hparsed.spends_first h, fun h => hparsed.blocks_first (hsubset h)⟩
  · intro dump
    rw [hmetas, houts]
    exact ⟨fun h => hback h, fun h => hsubset h⟩
  · exact (houts first).mpr (hback hmem)

/-- A merge of whole ranges from the genesis block on is that of a fresh run. -/
theorem Parsed.exists_fresh (hparsed : Parsed opts.network chain w outs spds metas)
    (hwhole : w.Whole) (hrun : w.mergeAndLoad opts db = .ok db') :
    ∃ below dumps, below <:+ chain ∧ CutInto below dumps ∧
      w.Found opts.network dumps dumps dumps := by
  obtain ⟨outs', spds', metas', hfound, houts, hspends, hblocks, first, hmem, hzero⟩ :=
    hparsed.exists_whole hwhole
  have hchunk : ∀ dump ∈ outs', dump.Of chain :=
    fun dump hdump => hparsed.chunks dump ((houts dump).mp hdump)
  simp only [WorkDir.mergeAndLoad, phaseMerge, Fallible.bind_eq_ok_iff,
    Fallible.mapError_eq_ok_iff] at hrun
  obtain ⟨keys, ⟨allOutputs, houtputs, allSpends, hspent, allMeta, hmeta, -⟩, -⟩ := hrun
  rw [hfound.outputs] at houtputs
  rw [hfound.spends] at hspent
  rw [hfound.blocks] at hmeta
  obtain ⟨start, hcontiguous, rfl, rfl⟩ :=
    exists_contiguous_of_concats hchunk hspends hblocks houtputs hspent hmeta
  have hstart : start = 0 := by
    have hle := hcontiguous.le first hmem
    omega
  subst hstart
  obtain ⟨below, hbelow, hcut⟩ := exists_cutInto hcontiguous hchunk
  exact ⟨below, _, hbelow, hcut, hfound⟩

theorem mem_findFiles {ρ : Type} {files : List (DatFile ρ)} {file : DatFile ρ} :
    file ∈ findFiles files ↔ file ∈ files := List.mem_mergeSort

/-- A merge of nothing fails. -/
theorem dumps_ne_nil {dumps : List Dump} (hrun : bulkSync opts dumps db = .ok db') :
    dumps ≠ [] := by
  rintro rfl
  cases hrun

theorem WorkDir.Found.whole {dumps : List Dump} (hfound : w.Found network dumps dumps dumps)
    (hne : dumps ≠ []) (hcontiguous : Contiguous 0 dumps) : w.Whole := by
  constructor
  · intro file hfile
    rw [← mem_findFiles, hfound.outputs] at hfile
    obtain ⟨dump, hmem, rfl⟩ := List.mem_map.mp hfile
    refine ⟨parseMeta network dump, ?_, rfl, rfl⟩
    rw [← mem_findFiles, hfound.blocks]
    exact List.mem_map_of_mem hmem
  · obtain ⟨first, rest, rfl⟩ := List.exists_cons_of_ne_nil hne
    refine ⟨parseMeta network first, ?_, hcontiguous.1⟩
    rw [← mem_findFiles, hfound.blocks]
    exact List.mem_map_of_mem List.mem_cons_self

theorem CutInto.ne_nil {below : Chain} {dumps : List Dump} (hcut : CutInto below dumps)
    (hne : dumps ≠ []) : below ≠ [] := by
  rintro rfl
  obtain ⟨first, rest, rfl⟩ := List.exists_cons_of_ne_nil hne
  have hblocks := hcut.blocks
  rw [List.flatMap_cons, List.reverse_nil, List.append_eq_nil_iff] at hblocks
  exact hcut.contiguous.2.1 hblocks.1

end Merge

end Bulk

end UtxoTracker

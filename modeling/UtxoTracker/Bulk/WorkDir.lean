import UtxoTracker.Bulk.Load
/-!
# The work directory of a bulk run

The finished files under `--out` over any number of runs on it. A dump and the three files of its
parse worker are renamed into place one after the other, so a kill leaves finished files only; a
later run may skip the phases that they come from.
-/

namespace UtxoTracker.Bulk

structure WorkDir where
  dumps : List Dump
  outputs : List (DatFile OutputsRecord)
  spends : List (DatFile SpendsRecord)
  blocks : List (DatFile MetaRecord)

def WorkDir.empty : WorkDir := ⟨[], [], [], []⟩

/-! ### Files -/

section Files

variable {ρ : Type}

/-- `renameSync` of a closed file onto its final path. -/
def renameInto (files : List (DatFile ρ)) (file : DatFile ρ) : List (DatFile ρ) :=
  file :: files.filter fun other => decide (other.path ≠ file.path)

/-- The size of a fixed-record stream is its header and its records; a block stream of a range has a
block. -/
def existingDatLooksComplete (files : List (DatFile ρ)) (path : String) : Bool :=
  match files.find? fun file => decide (file.path = path) with
  | none => false
  | some file =>
      if 0 < file.header.recordSize then decide (file.body.length = file.header.recordCount)
      else decide (file.header.recordCount ≠ 0)

def findFiles (files : List (DatFile ρ)) : List (DatFile ρ) :=
  files.mergeSort fun file other => decide (file.path ≤ other.path)

end Files

namespace WorkDir

variable (network : Network) (w : WorkDir) (dump : Dump)

/-- Whether a worker finds all three files of its range. -/
def looksComplete : Bool :=
  existingDatLooksComplete w.outputs (outPath .outputs dump.firstHeight dump.lastHeight) &&
    existingDatLooksComplete w.spends (outPath .spends dump.firstHeight dump.lastHeight) &&
    existingDatLooksComplete w.blocks (outPath .blockMeta dump.firstHeight dump.lastHeight)

def closeOutputs : WorkDir :=
  { w with outputs := renameInto w.outputs (parseOutputs network dump) }

def closeSpends : WorkDir := { w with spends := renameInto w.spends (parseSpends network dump) }

def closeMeta : WorkDir := { w with blocks := renameInto w.blocks (parseMeta network dump) }

/-- A chunk is dumped anew over the one of its range. -/
def placeDump : WorkDir :=
  { w with
    dumps := dump :: w.dumps.filter fun other =>
      decide ((other.firstHeight, other.lastHeight) ≠ (dump.firstHeight, dump.lastHeight)) }

def removeDumps : WorkDir := { w with dumps := [] }

/-- The merge of what `findFiles` finds at one moment, and the load. -/
def mergeAndLoad (opts : BulkOptions) (db : Db) : Except BulkError Db := do
  let keys ← phaseMerge opts (findFiles w.outputs) (findFiles w.spends) (findFiles w.blocks)
  (loadKeys opts.batchSize keys db).mapError .load

/-- Every range that has outputs has its blocks, and one range starts at the genesis block. -/
structure Whole : Prop where
  paired : ∀ file ∈ w.outputs, ∃ other ∈ w.blocks,
    other.header.firstHeight = file.header.firstHeight ∧
      other.header.lastHeight = file.header.lastHeight
  genesis : ∃ file ∈ w.blocks, file.header.firstHeight = 0

end WorkDir

/-! ### Runs -/

/-- The file that a worker closes next. -/
inductive Closing where
  | outputs
  | spends
  | blocks
  deriving DecidableEq, Repr

structure Worker where
  dump : Dump
  closing : Closing
  /-- Its run is over; the child process is not. -/
  orphaned : Bool
  deriving DecidableEq, Repr

def Worker.orphan (worker : Worker) : Worker := { worker with orphaned := true }

inductive RunPhase where
  | stopped
  | dumping
  /-- The dumps of the phase, and those whose workers have not exited yet. -/
  | parsing (xdmpFiles pending : List Dump)
  /-- The merge and the load, after the dumps were parsed or the parse was skipped. -/
  | merging (xdmpFiles : List Dump)
  deriving DecidableEq, Repr

structure BulkRun where
  dir : WorkDir
  phase : RunPhase
  workers : List Worker

/-- A chunk of a chain: its blocks from a height on. -/
structure Dump.Of (chain : List Block) (dump : Dump) : Prop where
  nonempty : dump.blocks ≠ []
  blocks : dump.blocks = (chain.reverse.drop dump.firstHeight).take dump.blocks.length

/-- The first phase of a run by its two flags. -/
def firstPhase (w : WorkDir) (skipDump skipParse : Bool) : RunPhase :=
  if skipParse then .merging [] else if skipDump then .parsing w.dumps w.dumps else .dumping

/-- What happens on a work directory while the node keeps its chain. -/
inductive BulkStep (network : Network) (chain : List Block) : BulkRun → BulkRun → Prop where
  | started {s : BulkRun} (skipDump skipParse : Bool) (hphase : s.phase = .stopped) :
      BulkStep network chain s { s with phase := firstPhase s.dir skipDump skipParse }
  | dumpedChunk {s : BulkRun} (dump : Dump) (hphase : s.phase = .dumping) (hdump : dump.Of chain) :
      BulkStep network chain s { s with dir := s.dir.placeDump dump }
  | dumped {s : BulkRun} (hphase : s.phase = .dumping) :
      BulkStep network chain s { s with phase := .parsing s.dir.dumps s.dir.dumps }
  | skippedRange {s : BulkRun} {xdmpFiles pending : List Dump} {dump : Dump}
      (hphase : s.phase = .parsing xdmpFiles pending) (hdump : dump ∈ pending)
      (hcomplete : s.dir.looksComplete dump = true) :
      BulkStep network chain s { s with phase := .parsing xdmpFiles (pending.erase dump) }
  /-- No other worker of that range is alive. The source does not check it: two of them would rename
  each other's `.tmp` files. -/
  | launched {s : BulkRun} {xdmpFiles pending : List Dump} {dump : Dump}
      (hphase : s.phase = .parsing xdmpFiles pending) (hdump : dump ∈ pending)
      (hcomplete : s.dir.looksComplete dump = false)
      (halone : ∀ worker ∈ s.workers, worker.dump ≠ dump) :
      BulkStep network chain s { s with workers := ⟨dump, .outputs, false⟩ :: s.workers }
  | closedOutputs {s : BulkRun} {dump : Dump} {orphaned : Bool}
      (hworker : ⟨dump, .outputs, orphaned⟩ ∈ s.workers) :
      BulkStep network chain s
        { s with
          dir := s.dir.closeOutputs network dump
          workers := ⟨dump, .spends, orphaned⟩ :: s.workers.erase ⟨dump, .outputs, orphaned⟩ }
  | closedSpends {s : BulkRun} {dump : Dump} {orphaned : Bool}
      (hworker : ⟨dump, .spends, orphaned⟩ ∈ s.workers) :
      BulkStep network chain s
        { s with
          dir := s.dir.closeSpends network dump
          workers := ⟨dump, .blocks, orphaned⟩ :: s.workers.erase ⟨dump, .spends, orphaned⟩ }
  | closedMeta {s : BulkRun} {xdmpFiles pending : List Dump} {dump : Dump}
      (hphase : s.phase = .parsing xdmpFiles pending)
      (hworker : ⟨dump, .blocks, false⟩ ∈ s.workers) :
      BulkStep network chain s
        { dir := s.dir.closeMeta network dump
          phase := .parsing xdmpFiles (pending.erase dump)
          workers := s.workers.erase ⟨dump, .blocks, false⟩ }
  /-- No run waits for an orphan. -/
  | orphanClosedMeta {s : BulkRun} {dump : Dump} (hworker : ⟨dump, .blocks, true⟩ ∈ s.workers) :
      BulkStep network chain s
        { s with
          dir := s.dir.closeMeta network dump
          workers := s.workers.erase ⟨dump, .blocks, true⟩ }
  | orphanFailed {s : BulkRun} {worker : Worker} (horphaned : worker.orphaned = true) :
      BulkStep network chain s { s with workers := s.workers.erase worker }
  | parsed {s : BulkRun} {xdmpFiles : List Dump} (hphase : s.phase = .parsing xdmpFiles []) :
      BulkStep network chain s { s with dir := s.dir.removeDumps, phase := .merging xdmpFiles }
  /-- The run is killed or fails, in any phase, or is over. Its workers may live on. -/
  | ended {s : BulkRun} {survivors : List Worker} (hsurvivors : survivors ⊆ s.workers) :
      BulkStep network chain s
        { s with phase := .stopped, workers := survivors.map Worker.orphan }

def BulkRun.Fresh (s : BulkRun) : Prop := s = ⟨.empty, .stopped, []⟩

end UtxoTracker.Bulk

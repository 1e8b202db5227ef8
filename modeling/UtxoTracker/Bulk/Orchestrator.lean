import UtxoTracker.Bulk.DumpRange
import UtxoTracker.Bulk.MergeDir
import UtxoTracker.Bulk.WorkDir
import UtxoTracker.Lib.RangeLoop
/-!
# One run on a used work directory

A run of the orchestrator without `--skip-dump` and `--skip-parse` from what earlier runs left under
`--out` to its success. It is not killed, and the node keeps its chain meanwhile. The checks of
`verifyDumpChain` only refuse.
-/

namespace UtxoTracker.Bulk

/-- The arguments of a run. -/
structure SeedArgs where
  range : RangeArgs
  opts : BulkOptions

def SeedArgs.orchestrator (args : SeedArgs) : OrchestratorArgs :=
  ⟨args.opts, args.range.start.toNat, args.range.last.map Int.toNat⟩

/-! ### What is there -/

/-- A finished `.xdmp` file. -/
structure ChunkFile where
  network : Network
  dump : Dump
  deriving DecidableEq, Repr

/-- What `chunkFileName` is made of. -/
def ChunkFile.name (file : ChunkFile) : Network × Nat × Nat :=
  (file.network, file.dump.firstHeight, file.dump.lastHeight)

/-- The finished files under `--out`. No two of one directory have one name, and the blocks' stream
has no record size. -/
structure WorkFiles where
  dumps : List ChunkFile
  parsed : ParsedFiles
  merge : MergeDir
  dumps_nodup : (dumps.map ChunkFile.name).Nodup
  outputs_nodup : (parsed.outputs.map DatFile.path).Nodup
  spends_nodup : (parsed.spends.map DatFile.path).Nodup
  blocks_nodup : (parsed.blocks.map DatFile.path).Nodup
  allMeta : ∀ allMeta, merge.allMeta = some allMeta → allMeta.header.recordSize = 0

def WorkFiles.empty : WorkFiles where
  dumps := []
  parsed := ⟨[], [], []⟩
  merge := .empty
  dumps_nodup := .nil
  outputs_nodup := .nil
  spends_nodup := .nil
  blocks_nodup := .nil
  allMeta := fun _ hnone => absurd hnone (Option.some_ne_none _).symm

/-! ### The dump -/

section Dump

variable (network : Network) (chain : List Block)

/-- `getblockhash` -/
def nodeBlockHash (height : Nat) : Option Hash := (chain.reverse[height]?).map Block.hash

/-- What a chunk is dumped as. -/
def chunkOf (chunkStart chunkEnd : Nat) : Dump :=
  ⟨chunkStart, (chain.reverse.drop chunkStart).take (chunkEnd + 1 - chunkStart)⟩

/-- `existingChunkMatchesChain` of a file of that range: its last hash is the node's. -/
def existingChunkMatchesChain (file : ChunkFile) (chunkEnd : Nat) : Bool :=
  file.dump.blocks.getLast?.any fun last =>
    decide (nodeBlockHash chain chunkEnd = some last.hash)

def dumpChunk (chunkStart chunkEnd : Nat) (dumps : List ChunkFile) : List ChunkFile :=
  let stays := dumps.any fun file =>
    decide (file.name = (network, chunkStart, chunkEnd)) &&
      existingChunkMatchesChain chain file chunkEnd
  if stays then dumps
  else
    ⟨network, chunkOf chain chunkStart chunkEnd⟩ ::
      dumps.filter fun file => decide (file.name ≠ (network, chunkStart, chunkEnd))

/-- The chunk loop of `dump.js`. -/
def dumpChunks (pieces : List (Nat × Nat)) (dumps : List ChunkFile) : List ChunkFile :=
  pieces.foldl (fun dumps piece => dumpChunk network chain piece.1 piece.2 dumps) dumps

end Dump

/-- The ranges of a run's chunks. -/
def SeedArgs.pieces (args : SeedArgs) (start dumpEnd : Int) : List (Nat × Nat) :=
  RangeLoop.pieces args.range.chunkSize.toNat start.toNat dumpEnd.toNat

/-! ### The parse -/

/-- The file that a worker closes after this one. -/
def Closing.next : Closing → Option Closing
  | .outputs => some .spends
  | .spends => some .blocks
  | .blocks => none

namespace ParsedFiles

variable (parsed : ParsedFiles)

/-- Whether a worker finds all three files of its range. -/
def looksComplete (dump : Dump) : Bool :=
  WorkDir.looksComplete ⟨[], parsed.outputs, parsed.spends, parsed.blocks⟩ dump

/-- The streams as `findFiles` lists them. -/
def listed : ParsedFiles :=
  ⟨findFiles parsed.outputs, findFiles parsed.spends, findFiles parsed.blocks⟩

/-- A worker closes a file of its range. -/
def close (file : ChunkFile) : Closing → ParsedFiles
  | .outputs => { parsed with
      outputs := renameInto parsed.outputs (parseOutputs file.network file.dump) }
  | .spends => { parsed with
      spends := renameInto parsed.spends (parseSpends file.network file.dump) }
  | .blocks => { parsed with
      blocks := renameInto parsed.blocks (parseMeta file.network file.dump) }

end ParsedFiles

/-- The dumps without a worker yet, and the workers with the file that each closes next. -/
structure ParseState where
  parsed : ParsedFiles
  pending : List ChunkFile
  workers : List (ChunkFile × Closing)

/-- The workers of `phaseParse`, side by side. -/
inductive ParseStep : ParseState → ParseState → Prop where
  | skipped {s : ParseState} {file : ChunkFile} (hfile : file ∈ s.pending)
      (hcomplete : s.parsed.looksComplete file.dump = true) :
      ParseStep s { s with pending := s.pending.erase file }
  | launched {s : ParseState} {file : ChunkFile} (hfile : file ∈ s.pending)
      (hcomplete : s.parsed.looksComplete file.dump = false) :
      ParseStep s
        { s with pending := s.pending.erase file, workers := (file, .outputs) :: s.workers }
  | closed {s : ParseState} {file : ChunkFile} {closing : Closing}
      (hworker : (file, closing) ∈ s.workers) :
      ParseStep s
        { s with
          parsed := s.parsed.close file closing
          workers := (closing.next.map fun next => (file, next)).toList ++
            s.workers.erase (file, closing) }

/-! ### The run -/

/-- The run reports success and leaves the store `db'`. -/
inductive Succeeds (args : SeedArgs) (chain : List Block) (w : WorkFiles) (db db' : Db) : Prop where
  | run {start dumpEnd : Int} {parsed : ParsedFiles} {merge : MergeDir} {keys : DerivedKeys}
      (hrange : dumpRange args.range (chain.length - 1) args.opts.undoBlocks = .ok (start, dumpEnd))
      (hparse : Relation.ReflTransGen ParseStep
        ⟨w.parsed, dumpChunks args.opts.network chain (args.pieces start dumpEnd) w.dumps, []⟩
        ⟨parsed, [], []⟩)
      (hmerge : Relation.ReflTransGen (MergeStep args.orchestrator parsed.listed)
        ⟨w.merge, .concat⟩ ⟨merge, .load keys⟩)
      (hload : loadKeys args.opts.batchSize keys db = .ok db')

/-! ### Leftovers that a run may find -/

/-- What is left belongs to this run's chunks: a dump that is kept is the chain's chunk, files that
are not parsed again are what the worker would write, and a sorted file that is taken over is the
right one. -/
structure Harmless (args : SeedArgs) (chain : List Block) (chunks : List Dump) (w : WorkFiles) :
    Prop where
  dumps_named : ∀ file ∈ w.dumps, ∃ chunk ∈ chunks,
    file.name = (ChunkFile.mk args.opts.network chunk).name
  dumps_kept : ∀ file ∈ w.dumps, ∀ chunk ∈ chunks,
    file.name = (ChunkFile.mk args.opts.network chunk).name →
      existingChunkMatchesChain chain file chunk.lastHeight = true → file.dump = chunk
  outputs_named : ∀ file ∈ w.parsed.outputs, ∃ chunk ∈ chunks,
    file.path = outPath .outputs chunk.firstHeight chunk.lastHeight
  spends_named : ∀ file ∈ w.parsed.spends, ∃ chunk ∈ chunks,
    file.path = outPath .spends chunk.firstHeight chunk.lastHeight
  blocks_named : ∀ file ∈ w.parsed.blocks, ∃ chunk ∈ chunks,
    file.path = outPath .blockMeta chunk.firstHeight chunk.lastHeight
  complete : ∀ chunk ∈ chunks, w.parsed.looksComplete chunk = true →
    parseOutputs args.opts.network chunk ∈ w.parsed.outputs ∧
      parseSpends args.opts.network chunk ∈ w.parsed.spends ∧
        parseMeta args.opts.network chunk ∈ w.parsed.blocks
  outputsSorted : ∀ all, concatFilesWithHeader "all-outputs.dat"
      (findFiles (chunks.map (parseOutputs args.opts.network))) = .ok all →
    w.merge.outputsSorted.Right (sortOutputs args.orchestrator) all
  spendsSorted : ∀ all, concatFilesWithHeader "all-spends.dat"
      (findFiles (chunks.map (parseSpends args.opts.network))) = .ok all →
    w.merge.spendsSorted.Right (sortSpends args.orchestrator) all

/-- The chunks of a run as it dumps them. -/
def SeedArgs.chunks (args : SeedArgs) (chain : List Block) (start dumpEnd : Int) : List Dump :=
  (args.pieces start dumpEnd).map fun piece => chunkOf chain piece.1 piece.2

/-- The leftovers are harmless to a run whose range is accepted. -/
def WorkFiles.HarmlessTo (w : WorkFiles) (args : SeedArgs) (chain : List Block) : Prop :=
  ∀ start dumpEnd,
    dumpRange args.range (chain.length - 1) args.opts.undoBlocks = .ok (start, dumpEnd) →
      Harmless args chain (args.chunks chain start dumpEnd) w

end UtxoTracker.Bulk

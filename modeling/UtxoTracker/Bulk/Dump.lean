import Mathlib.Logic.Function.Basic
import UtxoTracker.Bulk.Xdmp
import UtxoTracker.Lib.RangeLoop
/-!
# The block dump

The chunk loop of `dump.js` into a directory, each chunk fetched in RPC batches. The node's connector
is a parameter, and so is the hash of a block header.
-/

namespace UtxoTracker.Xdmp

open ByteString

def RPC_BATCH_SIZE : Nat := 25

/-- What the connector throws; a failed AuxPoW strip is tagged. -/
structure FetchError where
  message : String
  auxPowParseFailure : Bool
  deriving DecidableEq, Repr

structure Connector where
  getBlocksBatch : List Nat → Except FetchError (List DumpBlock)
  getBlocksBatchWithoutAuxPow : List Nat → Except FetchError (List DumpBlock)
  getBlockHash : Nat → Except FetchError (List Char)
  getBlockWithoutAuxPow : List Char → Except FetchError (List Char)
  getBlockReassembled : List Char → Except FetchError (List Char)

inductive DumpError where
  | fetch (error : FetchError)
  | write (error : WriteError)
  deriving DecidableEq, Repr

structure DumpArgs where
  chain : ChainName
  netName : NetworkName
  start : Nat
  chunkSize : Nat
  chunkSize_pos : 0 < chunkSize

/-- The chunk files by name. -/
abbrev Directory := String → Option (List UInt8)

/-- `WIRE_FORMAT` of the chain is `auxpow`. -/
def auxPow : ChainName → Bool
  | .dogecoin => true
  | _ => false

def batchHeights (cursor batchEnd : Nat) : List Nat := List.range' cursor (batchEnd + 1 - cursor)

variable (hash256 : List UInt8 → List UInt8) (connector : Connector)

/-- A reassembled block whose header is not the one asked for is refused. -/
def assertHeaderMatchesHash (height : Nat) (hash hex : List Char) : Except FetchError Unit :=
  let header := ofHex (hex.take 160)
  let actual := toHex (hash256 header).reverse
  if header.length ≠ 80 ∨ actual ≠ hash.map Char.toLower then
    .error
      { message := "reassembled block " ++ toString height ++ " header hashes to " ++
          String.ofList actual ++ ", expected " ++ String.ofList hash
        auxPowParseFailure := false }
  else .ok ()

def fetchAuxPowBlockForDump (height : Nat) : Except FetchError DumpBlock := do
  let hash ← connector.getBlockHash height
  match connector.getBlockWithoutAuxPow hash with
  | .ok hex => .ok ⟨height, hash, hex⟩
  | .error e =>
      if e.auxPowParseFailure then do
        let hex ← connector.getBlockReassembled hash
        assertHeaderMatchesHash hash256 height hash hex
        .ok ⟨height, hash, hex⟩
      else .error e

/-- The loop that fetches a batch block by block. -/
def fetchEach : List Nat → Except FetchError (List DumpBlock)
  | [] => .ok []
  | height :: rest => do
      let block ← fetchAuxPowBlockForDump hash256 connector height
      let blocks ← fetchEach rest
      .ok (block :: blocks)

def fetchDumpBatch (heights : List Nat) (auxPow : Bool) : Except FetchError (List DumpBlock) :=
  if auxPow then
    match connector.getBlocksBatchWithoutAuxPow heights with
    | .ok blocks => .ok blocks
    | .error e => if e.auxPowParseFailure then fetchEach hash256 connector heights else .error e
  else connector.getBlocksBatch heights

/-- An existing chunk is read whole, and its last hash compared with the node's. Whatever fails
counts as a mismatch. -/
def existingChunkMatchesChain (fileName : String) (file : List UInt8) (chunkStart chunkEnd : Nat) :
    Bool :=
  match XdmpReader.construct fileName file with
  | .error _ => false
  | .ok reader =>
      if reader.firstHeight ≠ chunkStart ∨ reader.lastHeight ≠ chunkEnd then false
      else
        let blocks := reader.blocks file
        if blocks.thrown.isSome then false
        else
          match blocks.yielded.getLast? with
          | none => false
          | some last =>
              match connector.getBlockHash chunkEnd with
              | .error _ => false
              | .ok nodeHash => decide (toHex last.blockHash = nodeHash)

variable (args : DumpArgs)

/-- One round of the loop over RPC batches. -/
def dumpBatch (cursor batchEnd : Nat) (file : List UInt8) : Except DumpError (List UInt8) := do
  let blocks ← (fetchDumpBatch hash256 connector (batchHeights cursor batchEnd)
    (auxPow args.chain)).mapError DumpError.fetch
  (writeBlockRecords file blocks).mapError DumpError.write

/-- The content of a chunk's temporary file when it is renamed. -/
def chunkContent (chunkStart chunkEnd chainTipAtDump : Nat) : Except DumpError (List UInt8) := do
  let header ← (makeHeader args.chain args.netName chunkStart chunkEnd chainTipAtDump).mapError
    DumpError.write
  RangeLoop.run RPC_BATCH_SIZE (dumpBatch hash256 connector args) chunkStart chunkEnd header

/-- The directory after a chunk. The temporary file is the final one under another name until it is
whole. -/
def dumpChunk (chainTipAtDump chunkStart chunkEnd : Nat) (dir : Directory) :
    Except DumpError Directory :=
  let fileName := chunkFileName args.chain args.netName chunkStart chunkEnd
  let stays := match dir fileName with
    | some file => existingChunkMatchesChain connector fileName file chunkStart chunkEnd
    | none => false
  if stays then .ok dir
  else do
    let content ← chunkContent hash256 connector args chunkStart chunkEnd chainTipAtDump
    .ok (Function.update (Function.update dir (fileName ++ ".tmp") none) fileName (some content))

/-- The chunk loop of `main`. -/
def dumpChunks (chainTipAtDump dumpEnd : Nat) (dir : Directory) : Except DumpError Directory :=
  RangeLoop.run args.chunkSize (dumpChunk hash256 connector args chainTipAtDump) args.start dumpEnd
    dir

end UtxoTracker.Xdmp

import UtxoTracker.Bulk.DatFiles
import UtxoTracker.Bulk.Writers
/-!
# Reading the block stream

`MetaReader` of `meta_reader.js`, over the bytes of a file. Each round reads the fixed part of a
record into a scratch buffer, grows the buffer when the whole record does not fit, and reads the list
of txids behind the fixed part.
-/

namespace UtxoTracker.DatFiles

open ByteString ValueCodec
open Xdmp (asciiText)

def MIN_RECORD_SIZE : Nat := 76
def IO_CHUNK_BYTES : Nat := 256 * 1024

/-- What `writeBlock` is given and `blocks` yields. -/
structure BlockTuple where
  height : Int
  timestamp : Int
  blockHash : List UInt8
  previousHash : List UInt8
  txidList : List (List UInt8)
  deriving DecidableEq

/-- The size that doubling `cap` until it is no less than `need` gives. -/
def doubled (cap need : Nat) : Nat :=
  if 0 < cap ∧ cap < need then doubled (cap * 2) need else cap
termination_by need - cap

/-- A larger buffer is a new one. -/
def ensureScratch (scratch : List UInt8) (need : Nat) : List UInt8 :=
  if scratch.length < need then alloc (doubled (scratch.length * 2) need) else scratch

def readInto (file buf : List UInt8) (offset length filePos : Nat) : Except String (List UInt8) :=
  if file.length < filePos + length then .error ("short read at " ++ toString file.length)
  else .ok (writeAt buf offset (subarray file filePos length))

def readUInt32BE (buf : List UInt8) (offset : Nat) : Nat := ofBE (subarray buf offset 4)

/-- What the scratch buffer shows of a record with `txCount` txids. -/
def scratchTuple (scratch : List UInt8) (txCount : Nat) : BlockTuple :=
  { height := readUInt32BE scratch 0
    timestamp := readUInt32BE scratch 4
    blockHash := subarray scratch 8 32
    previousHash := subarray scratch 40 32
    txidList := (List.range txCount).map fun i =>
      subarray scratch (MIN_RECORD_SIZE + META_TXID_SIZE * i) META_TXID_SIZE }

def recordSizeOf (txCount : Nat) : Nat := MIN_RECORD_SIZE + META_TXID_SIZE * txCount

/-- The txids of the record at `pos`, read behind its fixed part. -/
def readTxids (file : List UInt8) (pos txCount : Nat) (scratch : List UInt8) :
    Except String (List UInt8) :=
  if 0 < txCount then
    readInto file scratch MIN_RECORD_SIZE (META_TXID_SIZE * txCount) (pos + MIN_RECORD_SIZE)
  else .ok scratch

/-- The record at `pos`: its number of txids, and the scratch buffer that shows it. -/
def readRecord (file : List UInt8) (pos : Nat) (scratch : List UInt8) :
    Except String (Nat × List UInt8) :=
  let remaining := file.length - pos
  if remaining < MIN_RECORD_SIZE then
    .error ("meta truncated: " ++ toString remaining ++ " bytes left at pos " ++ toString pos ++
      ", need ≥" ++ toString MIN_RECORD_SIZE)
  else do
    let scratch ← readInto file (ensureScratch scratch MIN_RECORD_SIZE) 0 MIN_RECORD_SIZE pos
    let txCount := readUInt32BE scratch 72
    let total := recordSizeOf txCount
    if remaining < total then
      .error ("meta truncated: record at " ++ toString pos ++ " needs " ++ toString total ++
        "B, only " ++ toString remaining ++ "B left")
    else do
      let scratch ← readTxids file pos txCount (ensureScratch scratch total)
      .ok (txCount, scratch)

/-- The rounds of `blocks` from `pos`, after `yielded` blocks. -/
def blocksFrom (file : List UInt8) (blockCount pos yielded : Nat) (scratch : List UInt8) :
    Generator BlockTuple String :=
  if pos < file.length then
    match readRecord file pos scratch with
    | .error e => .throw e
    | .ok (txCount, scratch) =>
        .cons (scratchTuple scratch txCount)
          (blocksFrom file blockCount (pos + recordSizeOf txCount) (yielded + 1) scratch)
  else if yielded ≠ blockCount then
    .throw ("meta block_count=" ++ toString blockCount ++ " but yielded " ++ toString yielded)
  else .ended []
termination_by file.length - pos
decreasing_by
  unfold recordSizeOf MIN_RECORD_SIZE
  omega

/-- A `MetaReader` constructed, and its `blocks`. The header's count is taken exactly. -/
def readMetaFile (filePath : String) (file : List UInt8) : Generator BlockTuple String :=
  let hdr := file.take HEADER_SIZE
  if file.length < HEADER_SIZE then
    .throw ("meta file too small: " ++ toString file.length ++ " bytes (" ++ filePath ++ ")")
  else if hdr.take 8 ≠ MAGIC_META then
    .throw ("bad meta magic '" ++ asciiText (hdr.take 8) ++ "' in " ++ filePath ++ " (expected " ++
      asciiText MAGIC_META ++
      "; a file from an older bulk-sync format must be parsed again)")
  else
    blocksFrom file (recordCountOf hdr) HEADER_SIZE 0
      (alloc (max IO_CHUNK_BYTES (MIN_RECORD_SIZE * 2)))

end UtxoTracker.DatFiles

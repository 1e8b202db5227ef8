import UtxoTracker.Bulk.Xdmp
import UtxoTracker.Lib.RecordBuffer
/-!
# Writing the parse streams

The writers of `writers.js`: a header of 64 bytes with a record count of 0, the records through a
buffer, and the count put in when the file is closed. What a closed writer leaves is the list of its
file's bytes.
-/

namespace UtxoTracker.DatFiles

open ByteString RecordBuffer ValueCodec
open Xdmp (ChainName NetworkName CHAIN_CODES NETWORK_CODES)

def HEADER_SIZE : Nat := 64
def FILE_VERSION : Nat := 2

/-- `XCHNOUT2` -/
def MAGIC_OUTPUTS : List UInt8 := [0x58, 0x43, 0x48, 0x4E, 0x4F, 0x55, 0x54, 0x32]
/-- `XCHNSPD2` -/
def MAGIC_SPENDS : List UInt8 := [0x58, 0x43, 0x48, 0x4E, 0x53, 0x50, 0x44, 0x32]
/-- `XCHNMTA2` -/
def MAGIC_META : List UInt8 := [0x58, 0x43, 0x48, 0x4E, 0x4D, 0x54, 0x41, 0x32]

def OUTPUTS_RECORD_SIZE : Nat := 113
def SPENDS_RECORD_SIZE : Nat := 68
def META_TXID_SIZE : Nat := 32
def FLUSH_BATCH_BYTES : Nat := 256 * 1024

def writeUInt32LE (buf : List UInt8) (value offset : Nat) : Except CodecError (List UInt8) :=
  if 2 ^ 32 ≤ value then .error .outOfRange else .ok (writeAt buf offset (toLE 4 value))

def writeHeader (magic : List UInt8) (chain : ChainName) (netName : NetworkName)
    (firstHeight lastHeight recordSize : Nat) : Except CodecError (List UInt8) :=
  if magic.length ≠ 8 then .error (.message "magic must be 8 bytes")
  else do
    let buf := writeAt (alloc HEADER_SIZE) 0 magic
    let buf := writeAt buf 8 [CHAIN_CODES chain]
    let buf := writeAt buf 9 [NETWORK_CODES netName]
    let buf := writeAt buf 10 (toLE 2 FILE_VERSION)
    let buf ← writeUInt32LE buf firstHeight 12
    let buf ← writeUInt32LE buf lastHeight 16
    writeUInt32LE buf recordSize 28

def backfillRecordCount (file : List UInt8) (count : Nat) : Except CodecError (List UInt8) :=
  if 2 ^ 64 ≤ count then .error .outOfRange else .ok (writeAt file 20 (toLE 8 count))

/-! ### Fixed records -/

structure FixedRecordWriter where
  /-- The file and the batch. -/
  out : RecordWriter UInt8
  count : Nat

namespace FixedRecordWriter

def construct (magic : List UInt8) (chain : ChainName) (netName : NetworkName)
    (firstHeight lastHeight recordSize : Nat) : Except CodecError FixedRecordWriter := do
  let header ← writeHeader magic chain netName firstHeight lastHeight recordSize
  .ok ⟨(RecordWriter.ofSize FLUSH_BATCH_BYTES recordSize).writeRaw header, 0⟩

variable (w : FixedRecordWriter)

/-- The slot of the batch that the next record is packed into. -/
def slot : List UInt8 := subarray w.out.buf (w.out.bufLen * w.out.recordSize) w.out.recordSize

/-- The packed record is kept and the batch flushed when it is full. -/
def advance (record : List UInt8) : FixedRecordWriter := ⟨w.out.writeRecord record, w.count + 1⟩

def close : Except CodecError (List UInt8) := backfillRecordCount w.out.flush.written w.count

end FixedRecordWriter

/-- What `SpendsWriter.append` is called with. -/
structure SpendsAppend where
  prevTxid : List UInt8
  prevVout : Int
  spenderTxid : List UInt8

def SpendsAppend.pack (spend : SpendsAppend) (slot : List UInt8) :
    Except CodecError (List UInt8) :=
  let b := writeAt slot 0 (spend.prevTxid.take 32)
  let b := writeAt b 32 (toBE 4 (spend.prevVout % 2 ^ 32).toNat)
  .ok (writeAt b 36 (spend.spenderTxid.take 32))

/-- `append` for each call in turn. -/
def appendAll {ρ : Type} (pack : ρ → List UInt8 → Except CodecError (List UInt8)) :
    FixedRecordWriter → List ρ → Except CodecError FixedRecordWriter
  | w, [] => .ok w
  | w, call :: rest => do
      let record ← pack call w.slot
      appendAll pack (w.advance record) rest

/-- The file of a fixed-record writer that was closed after the calls. -/
def fixedRecordFile {ρ : Type} (magic : List UInt8) (recordSize : Nat)
    (pack : ρ → List UInt8 → Except CodecError (List UInt8)) (chain : ChainName)
    (netName : NetworkName) (firstHeight lastHeight : Nat) (calls : List ρ) :
    Except CodecError (List UInt8) := do
  let w ← FixedRecordWriter.construct magic chain netName firstHeight lastHeight recordSize
  let w ← appendAll pack w calls
  w.close

/-- `OutputsWriter` -/
def outputsFile (chain : ChainName) (netName : NetworkName) (firstHeight lastHeight : Nat)
    (outputs : List OutputsAppend) : Except CodecError (List UInt8) :=
  fixedRecordFile MAGIC_OUTPUTS OUTPUTS_RECORD_SIZE OutputsAppend.pack chain netName firstHeight
    lastHeight outputs

/-- `SpendsWriter` -/
def spendsFile (chain : ChainName) (netName : NetworkName) (firstHeight lastHeight : Nat)
    (spends : List SpendsAppend) : Except CodecError (List UInt8) :=
  fixedRecordFile MAGIC_SPENDS SPENDS_RECORD_SIZE SpendsAppend.pack chain netName firstHeight
    lastHeight spends

/-! ### Blocks -/

/-- What `MetaWriter.writeBlock` is called with. -/
structure MetaBlock where
  height : Int
  timestamp : Int
  blockHash : Vector UInt8 32
  previousHash : Vector UInt8 32
  txidList : List (Vector UInt8 32)

def MetaBlock.record (block : MetaBlock) : List UInt8 :=
  toBE 4 (block.height % 2 ^ 32).toNat ++ toBE 4 (block.timestamp % 2 ^ 32).toNat ++
    block.blockHash.toList ++ block.previousHash.toList ++
    toBE 4 (block.txidList.length % 2 ^ 32) ++ block.txidList.flatMap Vector.toList

structure MetaWriter where
  /-- The file so far. -/
  written : List UInt8
  /-- The front of the buffer that is not in the file yet. -/
  pending : List UInt8
  bufSize : Nat
  count : Nat

namespace MetaWriter

def construct (chain : ChainName) (netName : NetworkName) (firstHeight lastHeight : Nat) :
    Except CodecError MetaWriter := do
  let header ← writeHeader MAGIC_META chain netName firstHeight lastHeight 0
  .ok ⟨header, [], FLUSH_BATCH_BYTES, 0⟩

variable (w : MetaWriter)

def flush : MetaWriter :=
  if w.pending.length = 0 then w
  else { w with written := w.written ++ w.pending, pending := [] }

def ensure (needed : Nat) : MetaWriter :=
  if w.pending.length + needed ≤ w.bufSize then w
  else if w.bufSize < needed then { w.flush with bufSize := needed }
  else w.flush

def writeBlock (block : MetaBlock) : MetaWriter :=
  let w := w.ensure (76 + META_TXID_SIZE * block.txidList.length)
  { w with pending := w.pending ++ block.record, count := w.count + 1 }

def close : Except CodecError (List UInt8) := backfillRecordCount w.flush.written w.count

end MetaWriter

/-- The file of a `MetaWriter` that was closed after the blocks. -/
def metaFile (chain : ChainName) (netName : NetworkName) (firstHeight lastHeight : Nat)
    (blocks : List MetaBlock) : Except CodecError (List UInt8) := do
  let w ← MetaWriter.construct chain netName firstHeight lastHeight
  (blocks.foldl MetaWriter.writeBlock w).close

end UtxoTracker.DatFiles

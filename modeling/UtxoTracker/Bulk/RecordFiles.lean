import UtxoTracker.Bulk.Derive
import UtxoTracker.Lib.RecordBuffer
/-!
# Sorting and joining record files

`externalSort` and `leftAntiJoin` on the bytes of their files: the option checks, the headers, the
buffers, the sorted run files and the merge. A record's key is its first `keySize` bytes.
-/

namespace UtxoTracker.Bulk

open Chunks ExternalSort RecordBuffer

/-- `IO_CHUNK_BYTES` -/
def ioChunkBytes : Nat := 256 * 1024

/-- What `Buffer.compare` orders by. -/
def bytesKey (bytes : List UInt8) : List Nat := bytes.map UInt8.toNat

def recordKey (keySize : Nat) (record : List UInt8) : List Nat := bytesKey (record.take keySize)

/-! ### The join -/

structure JoinStats where
  leftRead : Nat
  rightRead : Nat
  emitted : Nat
  canceled : Nat
  orphanSpends : Nat
  deriving DecidableEq, Repr

/-- `if (leftCurr) leftRead++` -/
def JoinStats.countLeft (stats : JoinStats) (leftCurr : Option Nat) : JoinStats :=
  if leftCurr.isSome then { stats with leftRead := stats.leftRead + 1 } else stats

def JoinStats.countRight (stats : JoinStats) (rightCurr : Option Nat) : JoinStats :=
  if rightCurr.isSome then { stats with rightRead := stats.rightRead + 1 } else stats

/-- A cursor that shows a record counts as one more to come. -/
def cursorWeight : Option Nat → Nat
  | none => 0
  | some _ => 1

@[simp] theorem cursorWeight_none : cursorWeight none = 0 := rfl

@[simp] theorem cursorWeight_some (off : Nat) : cursorWeight (some off) = 1 := rfl

theorem weight_next (r : RecordReader UInt8) :
    r.next.2.unread + cursorWeight r.next.1 < r.unread + 1 := by
  cases hnext : r.next.1 with
  | none =>
      have hle := RecordReader.unread_next_none hnext
      rw [cursorWeight_none]
      omega
  | some off =>
      have hlt := RecordReader.unread_next_some hnext
      rw [cursorWeight_some]
      omega

/-- The two loops of `joinRecords`: the current records are views into the readers' buffers. -/
def joinLoop (keySize : Nat) (left right : RecordReader UInt8) (leftCurr rightCurr : Option Nat)
    (out : RecordWriter UInt8) (stats : JoinStats) : RecordWriter UInt8 × JoinStats :=
  match leftCurr, rightCurr with
  | none, none => (out, stats)
  | none, some _ =>
      joinLoop keySize left right.next.2 none right.next.1 out
        ({ stats with orphanSpends := stats.orphanSpends + 1 }.countRight right.next.1)
  | some l, none =>
      joinLoop keySize left.next.2 right left.next.1 none (out.writeRecord (left.view l))
        ({ stats with emitted := stats.emitted + 1 }.countLeft left.next.1)
  | some l, some r =>
      if recordKey keySize (left.view l) < recordKey keySize (right.view r) then
        joinLoop keySize left.next.2 right left.next.1 (some r) (out.writeRecord (left.view l))
          ({ stats with emitted := stats.emitted + 1 }.countLeft left.next.1)
      else if recordKey keySize (right.view r) < recordKey keySize (left.view l) then
        joinLoop keySize left right.next.2 (some l) right.next.1 out
          ({ stats with orphanSpends := stats.orphanSpends + 1 }.countRight right.next.1)
      else
        joinLoop keySize left.next.2 right.next.2 left.next.1 right.next.1 out
          (({ stats with canceled := stats.canceled + 1 }.countLeft left.next.1).countRight
            right.next.1)
termination_by left.unread + cursorWeight leftCurr + (right.unread + cursorWeight rightCurr)
decreasing_by
  all_goals
    have hleft := weight_next left
    have hright := weight_next right
    simp only [cursorWeight_none, cursorWeight_some]
    omega

def joinRecords (keySize : Nat) (left right : RecordReader UInt8) (out : RecordWriter UInt8) :
    RecordWriter UInt8 × JoinStats :=
  joinLoop keySize left.next.2 right.next.2 left.next.1 right.next.1 out
    (({ leftRead := 0, rightRead := 0, emitted := 0, canceled := 0, orphanSpends := 0 } :
      JoinStats).countLeft left.next.1 |>.countRight right.next.1)

/-- The options of a join; a path comes with what its file holds. -/
structure JoinOptions where
  leftPath : String
  left : List UInt8
  rightPath : String
  right : List UInt8
  leftHeaderSize : Nat
  rightHeaderSize : Nat
  leftRecordSize : Nat
  rightRecordSize : Nat
  keySize : Nat
  copyLeftHeader : Bool

/-- The constructor of `RecordReader`: whole records behind the header, or nothing. -/
def openReader (filePath : String) (file : List UInt8) (headerSize recordSize : Nat)
    (hsize : 0 < recordSize) : Except String (RecordReader UInt8) :=
  if file.length < headerSize ∨ (file.length - headerSize) % recordSize ≠ 0 then
    .error ("RecordReader: " ++ filePath ++ " data ("
      ++ toString ((file.length : Int) - headerSize) ++ " bytes after header) is not a multiple of "
      ++ "recordSize " ++ toString recordSize ++ " (truncated file?)")
  else .ok (.ofFile ioChunkBytes file headerSize recordSize hsize)

/-- `leftAntiJoin`: the output file and the counts. -/
def leftAntiJoin (o : JoinOptions) : Except String (List UInt8 × JoinStats) :=
  if hkey : o.keySize = 0 then .error "leftAntiJoin: keySize must be a positive integer"
  else if hsizes : o.leftRecordSize < o.keySize ∨ o.rightRecordSize < o.keySize then
    .error "leftAntiJoin: keySize exceeds one of the record sizes"
  else
    have hleft : 0 < o.leftRecordSize := by omega
    have hright : 0 < o.rightRecordSize := by omega
    match openReader o.leftPath o.left o.leftHeaderSize o.leftRecordSize hleft,
      openReader o.rightPath o.right o.rightHeaderSize o.rightRecordSize hright with
    | .ok left, .ok right =>
        let out := RecordWriter.ofSize ioChunkBytes o.leftRecordSize
        let out :=
          if o.copyLeftHeader ∧ 0 < o.leftHeaderSize then out.writeRaw (o.left.take o.leftHeaderSize)
          else out
        let (out, stats) := joinRecords o.keySize left right out
        .ok (out.flush.written, stats)
    | .error message, _ => .error message
    | _, .error message => .error message

/-! ### The sort -/

structure SortOptions where
  input : List UInt8
  headerSize : Nat
  recordSize : Nat
  keySize : Nat
  ramBudgetBytes : Nat
  preserveHeader : Bool

/-- The option's default. -/
def SortOptions.budget (o : SortOptions) : Nat :=
  if o.ramBudgetBytes = 0 then defaultRamBudget else o.ramBudgetBytes

structure SortResult where
  output : List UInt8
  runsCreated : Nat
  recordsSorted : Nat
  bytesOut : Nat
  deriving DecidableEq, Repr

/-- Records written one by one through a flush buffer. -/
def writeRecords (recordSize : Nat) (records : List (List UInt8)) : List UInt8 :=
  (records.foldl RecordWriter.writeRecord (.ofSize ioChunkBytes recordSize)).flush.written

/-- The record that `sortedIndices` and `writeRun` find at an index of the chunk's buffer. -/
def recordAt (bigBuf : List UInt8) (recordSize i : Nat) : List UInt8 :=
  (bigBuf.drop (i * recordSize)).take recordSize

/-- `sortedIndices`: a stable sort of the record numbers by key. -/
def sortedIndices (bigBuf : List UInt8) (wantRecords recordSize keySize : Nat) : List Nat :=
  (List.range wantRecords).insertionSort fun a b =>
    recordKey keySize (recordAt bigBuf recordSize a) ≤ recordKey keySize (recordAt bigBuf recordSize b)

/-- `writeRun`: the run file. -/
def writeRun (bigBuf : List UInt8) (indices : List Nat) (recordSize : Nat) : List UInt8 :=
  writeRecords recordSize (indices.map (recordAt bigBuf recordSize))

/-- The loop of `createSortedRuns`, the buffer reused from one chunk to the next. -/
def createSortedRuns (recordSize keySize : Nat) (bigBuf : List UInt8) (position : Nat)
    (input : List UInt8) (hbuf : 0 < bigBuf.length) : List (List UInt8) :=
  if position < input.length then
    let wantBytes := min (input.length - position) bigBuf.length
    let bigBuf' := (input.drop position).take wantBytes ++ bigBuf.drop wantBytes
    let indices := sortedIndices bigBuf' (wantBytes / recordSize) recordSize keySize
    writeRun bigBuf' indices recordSize ::
      createSortedRuns recordSize keySize bigBuf' (position + wantBytes) input (by
        simp only [bigBuf', wantBytes, List.length_append, List.length_take, List.length_drop]
        omega)
  else []
termination_by input.length - position
decreasing_by omega

/-- `mergeRuns`: the records of the run files, each read one by one from its own cursor. -/
def mergeRunFiles (recordSize keySize : Nat) (runs : List (List UInt8)) : List (List UInt8) :=
  mergeRuns (recordKey keySize) (runs.map (chunks recordSize))

theorem recordsPerRun_pos (ramBudgetBytes recordSize : Nat) :
    0 < recordsPerRun ramBudgetBytes recordSize := by
  unfold recordsPerRun
  omega

/-- `externalSort` -/
def externalSortFile (o : SortOptions) : Except String SortResult :=
  if hsize : o.recordSize = 0 then .error "externalSort: recordSize must be a positive integer"
  else if o.keySize = 0 ∨ o.recordSize < o.keySize then
    .error "externalSort: keySize must satisfy 0 < keySize <= recordSize"
  else if o.input.length < o.headerSize ∨ (o.input.length - o.headerSize) % o.recordSize ≠ 0 then
    .error ("externalSort: input data (" ++ toString ((o.input.length : Int) - o.headerSize)
      ++ " bytes after header) is not a multiple of recordSize " ++ toString o.recordSize)
  else
    let totalRecords := (o.input.length - o.headerSize) / o.recordSize
    let bigBuf := List.replicate (recordsPerRun o.budget o.recordSize * o.recordSize) (0 : UInt8)
    have hbuf : 0 < bigBuf.length := by
      rw [List.length_replicate]
      exact Nat.mul_pos (recordsPerRun_pos _ _) (Nat.pos_of_ne_zero hsize)
    let runs := createSortedRuns o.recordSize o.keySize bigBuf o.headerSize o.input hbuf
    let merged := mergeRunFiles o.recordSize o.keySize runs
    if merged.length ≠ totalRecords then
      .error ("merge emitted " ++ toString merged.length ++ " records, expected "
        ++ toString totalRecords)
    else
      let header := if o.preserveHeader ∧ 0 < o.headerSize then o.input.take o.headerSize else []
      let body := writeRecords o.recordSize merged
      .ok
        { output := header ++ body
          runsCreated := runs.length
          recordsSorted := totalRecords
          bytesOut := header.length + body.length }

end UtxoTracker.Bulk

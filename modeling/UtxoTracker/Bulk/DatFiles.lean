import Mathlib.Logic.Function.Basic
import UtxoTracker.Bulk.Xdmp
import UtxoTracker.Lib.Throwing
/-!
# Concatenating the parse streams

`concatFilesWithHeader` of `file_ops.js`, byte for byte. A system call may throw, a read may give less
than it was asked for, and a write may take less. Closing, removing and renaming do not fail.
-/

namespace UtxoTracker.DatFiles

open ByteString Throwing ValueCodec
open Xdmp (asciiText readUInt32LE)

/-! ### Files and system calls -/

/-- The files by path, how many system calls were made, and how many writes so far left another file
than they would have left had they taken all their bytes. No program reads the two counts. -/
structure Disk where
  dir : String → Option (List UInt8)
  calls : Nat
  torn : Nat := 0

/-- Which calls throw, and how many bytes each read gives at most. -/
structure Faults where
  fails : Nat → Bool
  most : Nat → Nat

inductive ConcatError where
  | message (text : String)
  /-- A system call that throws. -/
  | system (call : Nat)
  | missing (path : String)
  /-- A number that does not fit its field. -/
  | outOfRange
  deriving DecidableEq, Repr

abbrev Program := EStateM ConcatError Disk

/-- By how many bytes each call comes short, when it is a write. -/
abbrev Cuts := Nat → Nat

/-- Every write takes all its bytes. -/
def wholeWrites : Cuts := fun _ => 0

variable (faults : Faults) (cuts : Cuts)

/-- The number of the call, unless it throws. -/
def systemCall : Program Nat := fun s =>
  let after := { s with calls := s.calls + 1 }
  if faults.fails s.calls then .error (.system s.calls) after else .ok s.calls after

def contents (path : String) : Program (List UInt8) := fun s =>
  match s.dir path with
  | some file => .ok file s
  | none => .error (.missing path) s

/-- The size of a file. -/
def statSync (path : String) : Program Nat := do
  let _ ← systemCall faults
  let file ← contents path
  pure file.length

def openSync (path : String) : Program Unit := do
  let _ ← systemCall faults
  let _ ← contents path
  pure ()

def readSync (path : String) (length position : Nat) : Program (List UInt8) := do
  let call ← systemCall faults
  let file ← contents path
  pure ((subarray file position length).take (faults.most call))

/-- A file with other contents. -/
def store (path : String) (file : List UInt8) : Program Unit := fun s =>
  .ok () { s with dir := Function.update s.dir path (some file) }

/-- What a write that comes short takes of its bytes: one at least, or it would have thrown. -/
def taken (cut : Nat) (bytes : List UInt8) : List UInt8 := bytes.take (max 1 (bytes.length - cut))

/-- The file after a write, and the file that a whole write would have left. -/
def storeWrite (path : String) (file whole : List UInt8) : Program Unit := fun s =>
  .ok () { s with
    dir := Function.update s.dir path (some file)
    torn := if file = whole then s.torn else s.torn + 1 }

/-- Writing on at the end. The count of the bytes taken is the value. -/
def writeSync (path : String) (bytes : List UInt8) : Program Nat := do
  let call ← systemCall faults
  let file ← contents path
  storeWrite path (file ++ taken (cuts call) bytes) (file ++ bytes)
  pure (taken (cuts call) bytes).length

/-- A file with bytes written at a position: past its end it is filled with zeros up to there. -/
def overwritten (file : List UInt8) (position : Nat) (bytes : List UInt8) : List UInt8 :=
  (file ++ alloc (position - file.length)).take position ++ bytes ++
    file.drop (position + bytes.length)

/-- Writing at a position. -/
def pwriteSync (path : String) (bytes : List UInt8) (position : Nat) : Program Nat := do
  let call ← systemCall faults
  let file ← contents path
  storeWrite path (overwritten file position (taken (cuts call) bytes))
    (overwritten file position bytes)
  pure (taken (cuts call) bytes).length

def fsyncSync : Program Unit := do
  let _ ← systemCall faults
  pure ()

def unlink (path : String) (s : Disk) : Disk := { s with dir := Function.update s.dir path none }

def renameSync (path finalPath : String) : Program Unit := do
  let file ← contents path
  fun s => .ok () { s with
    dir := Function.update (Function.update s.dir path none) finalPath (some file) }

/-! ### One input -/

structure ThisHdr where
  magic : String
  chain : UInt8
  net : UInt8
  recordSize : Nat
  deriving DecidableEq, Repr

def ThisHdr.ofHeader (hdrBuf : List UInt8) : ThisHdr :=
  { magic := asciiText (subarray hdrBuf 0 8)
    chain := hdrBuf.getD 8 0
    net := hdrBuf.getD 9 0
    recordSize := readUInt32LE hdrBuf 28 }

def recordCountOf (hdrBuf : List UInt8) : Nat := ofLE (subarray hdrBuf 20 8)
def firstHeightOf (hdrBuf : List UInt8) : Nat := readUInt32LE hdrBuf 12
def lastHeightOf (hdrBuf : List UInt8) : Nat := readUInt32LE hdrBuf 16

/-- The first field in which two headers differ, and its two values. -/
def firstDifference (thisHdr firstHdr : ThisHdr) : Option (String × String × String) :=
  if thisHdr.magic ≠ firstHdr.magic then some ("magic", thisHdr.magic, firstHdr.magic)
  else if thisHdr.chain ≠ firstHdr.chain then
    some ("chain", toString thisHdr.chain.toNat, toString firstHdr.chain.toNat)
  else if thisHdr.net ≠ firstHdr.net then
    some ("net", toString thisHdr.net.toNat, toString firstHdr.net.toNat)
  else if thisHdr.recordSize ≠ firstHdr.recordSize then
    some ("recordSize", toString thisHdr.recordSize, toString firstHdr.recordSize)
  else none

/-- The checks against the first input and the last height of the input before. -/
def checkAgainst (inputPath : String) (thisHdr : ThisHdr) (firstH : Nat)
    (firstHdr : Option ThisHdr) (prevLastHeight : Option Nat) : Except ConcatError Unit :=
  match firstHdr with
  | none => .ok ()
  | some firstHdr =>
      match firstDifference thisHdr firstHdr with
      | some (f, value, firstValue) =>
          .error (.message (inputPath ++ " header " ++ f ++ "=" ++ value ++
            " differs from first input's " ++ firstValue ++ "; refusing to concatenate mixed files"))
      | none =>
          match prevLastHeight with
          | none => .ok ()
          | some prevLastHeight =>
              if firstH ≠ prevLastHeight + 1 then
                .error (.message (inputPath ++ " starts at height " ++ toString firstH ++
                  ", expected " ++ toString (prevLastHeight + 1) ++
                  " (gap or overlap in parsed ranges)"))
              else .ok ()

def checkInputHeader (hdrBuf : List UInt8) (inputPath : String) (size headerSize : Nat)
    (firstHdr : Option ThisHdr) (prevLastHeight : Option Nat) : Except ConcatError Unit :=
  if recordCountOf hdrBuf = 0 ∧ size ≠ headerSize then
    .error (.message (inputPath ++ " has record_count 0 but " ++ toString size ++
      " bytes (crashed/partial worker output); re-run the parse for this range"))
  else
    checkAgainst inputPath (ThisHdr.ofHeader hdrBuf) (firstHeightOf hdrBuf) firstHdr prevLastHeight

/-- The loop that reads a header, with what is in the buffer. -/
def readHeaderFrom (inputPath : String) (short : Nat → String) (headerSize : Nat)
    (hdrBuf : List UInt8) : Program (List UInt8) :=
  if hdrBuf.length < headerSize then do
    let bytes ← readSync faults inputPath (headerSize - hdrBuf.length) hdrBuf.length
    if _ : bytes = [] then throw (.message (short hdrBuf.length))
    else readHeaderFrom inputPath short headerSize (hdrBuf ++ bytes)
  else pure hdrBuf
termination_by headerSize - hdrBuf.length
decreasing_by
  have := List.length_pos_of_ne_nil ‹¬bytes = []›
  rw [List.length_append]
  omega

def readInputHeader (headerSize : Nat) (inputPath : String) (size : Nat) : Program (List UInt8) :=
  if size < headerSize then
    throw (.message (inputPath ++ " is smaller than headerSize " ++ toString headerSize))
  else
    readHeaderFrom faults inputPath (fun _ => "short header read in " ++ inputPath) headerSize []

def BUF_SIZE : Nat := 256 * 1024

/-- The loop of `copyInputBody`, from `pos`. It drops the count that the write returns. -/
def copyFrom (inputPath tmpPath : String) (size pos written : Nat) : Program Nat :=
  if pos < size then do
    let bytes ← readSync faults inputPath (min BUF_SIZE (size - pos)) pos
    if _ : bytes = [] then
      throw (.message ("short read in " ++ inputPath ++ " at offset " ++ toString pos ++
        " (file shrank mid-copy?)"))
    else do
      let _ ← writeSync faults cuts tmpPath bytes
      copyFrom inputPath tmpPath size (pos + bytes.length) (written + bytes.length)
  else if pos ≠ size then
    throw (.message (inputPath ++ ": copied " ++ toString pos ++ " of " ++ toString size ++
      " bytes"))
  else pure written
termination_by size - pos
decreasing_by
  have := List.length_pos_of_ne_nil ‹¬bytes = []›
  omega

def copyInputBody (inputPath tmpPath : String) (size startPos : Nat) : Program Nat :=
  copyFrom faults cuts inputPath tmpPath size startPos 0

/-! ### All inputs -/

/-- The variables of the loop over the inputs. -/
structure Totals where
  recordCount : Nat
  maxLastHeight : Nat
  firstHdr : Option ThisHdr
  prevLastHeight : Option Nat
  totalBytes : Nat

def Totals.start : Totals := ⟨0, 0, none, none, 0⟩

/-- The variables after an input of which `written` bytes were copied. -/
def Totals.add (totals : Totals) (hdrBuf : List UInt8) (written : Nat) : Totals :=
  { recordCount := totals.recordCount + recordCountOf hdrBuf
    maxLastHeight := max totals.maxLastHeight (lastHeightOf hdrBuf)
    firstHdr := some (totals.firstHdr.getD (ThisHdr.ofHeader hdrBuf))
    prevLastHeight := some (lastHeightOf hdrBuf)
    totalBytes := totals.totalBytes + written }

/-- One round of the loop: the `i`-th input checked and copied. -/
def concatInput (headerSize : Nat) (tmpPath : String) (i : Nat) (inputPath : String)
    (totals : Totals) : Program Totals := do
  let size ← statSync faults inputPath
  openSync faults inputPath
  let hdrBuf ← readInputHeader faults headerSize inputPath size
  lift (checkInputHeader hdrBuf inputPath size headerSize totals.firstHdr totals.prevLastHeight)
  let written ← copyInputBody faults cuts inputPath tmpPath size (if i = 0 then 0 else headerSize)
  pure (totals.add hdrBuf written)

def concatInputs (headerSize : Nat) (tmpPath : String) :
    Nat → List String → Totals → Program Totals
  | _, [], totals => pure totals
  | i, inputPath :: rest, totals => do
      let totals ← concatInput faults cuts headerSize tmpPath i inputPath totals
      concatInputs headerSize tmpPath (i + 1) rest totals

/-- `writeBigUInt64LE` into a fresh buffer. -/
def bigUInt64LE (value : Nat) : Except ConcatError (List UInt8) :=
  if 2 ^ 64 ≤ value then .error .outOfRange else .ok (toLE 8 value)

def patchOutputHeader (tmpPath : String) (maxLastHeight totalRecordCount : Nat) : Program Unit := do
  let _ ← pwriteSync faults cuts tmpPath (toLE 4 maxLastHeight) 16
  let patch ← lift (bigUInt64LE totalRecordCount)
  let _ ← pwriteSync faults cuts tmpPath patch 20

/-- What is done before the temporary file is renamed. -/
def writeOutput (headerSize : Nat) (tmpPath : String) (inputPaths : List String) :
    Program Totals := do
  let totals ← concatInputs faults cuts headerSize tmpPath 0 inputPaths Totals.start
  patchOutputHeader faults cuts tmpPath totals.maxLastHeight totals.recordCount
  fsyncSync faults
  pure totals

def concatFilesWithHeader (inputPaths : List String) (outputPath : String) (headerSize : Nat) :
    Program Nat :=
  if inputPaths = [] then throw (.message "concatFilesWithHeader: no input files")
  else do
    let tmpPath := outputPath ++ ".tmp"
    store tmpPath []
    let totals ← onError (writeOutput faults cuts headerSize tmpPath inputPaths) (unlink tmpPath)
    renameSync tmpPath outputPath
    pure totals.totalBytes

end UtxoTracker.DatFiles

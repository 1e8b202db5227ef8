import Mathlib.Data.List.Sort
import UtxoTracker.Bulk.MerkleRoot
import UtxoTracker.Bulk.Xdmp
/-!
# Validating a dump's chain

`verifyBackwardLink`, `verifyBlockSequence` and `validateChainFiles`. `decode` is the transaction
decoder of a coin, asked only when the Merkle roots are checked too.
-/

namespace UtxoTracker.Xdmp

open ByteString ValueCodec

def ZERO32 : List UInt8 := alloc 32

def HEADER_BYTES : Nat := 80
def PREV_OFF : Nat := 4
def MERKLE_OFF : Nat := 36

def reverse32 (src : List UInt8) : List UInt8 := (List.range 32).map fun i => src.getD (31 - i) 0

def hexText (bytes : List UInt8) : String := String.ofList (toHex bytes)

/-- The 32 bytes of `hash256` over a header. -/
def headerHash (sha256 : Bulk.Sha256) (header : List UInt8) : List UInt8 :=
  toBE 32 (Bulk.hash256 sha256 (BitVec.ofNat (8 * header.length) (ofBE header))).toNat

/-- What is wrong with the link of a block to the one before, if anything. -/
def verifyBackwardLink (height : Nat) (headerPrev : List UInt8) (prevHeight : Option Nat)
    (prevHash : Option (List UInt8)) : Option String :=
  match prevHash with
  | none =>
      if height = 0 ∧ headerPrev ≠ ZERO32 then
        some ("genesis prevHash is not zero: " ++ hexText headerPrev)
      else none
  | some prevHash =>
      if height ≠ prevHeight.getD 0 + 1 then
        some ("height gap: previous was " ++ toString (prevHeight.getD 0))
      else if headerPrev ≠ prevHash then
        some ("prevHash link broken: header.prev=" ++ hexText headerPrev ++ " expected=" ++
          hexText prevHash)
      else none

structure VerifyOpts where
  merkle : Bool
  /-- No coin, as an empty one is. -/
  coin : Option String

structure VerifyResult where
  ok : Bool
  blocksChecked : Nat
  firstHeight : Option Nat
  lastHeight : Option Nat
  error : Option String
  deriving DecidableEq, Repr

/-- The variables of the loop over the blocks. -/
structure VerifyState where
  blocksChecked : Nat
  firstHeight : Option Nat
  lastHeight : Option Nat
  prevHeight : Option Nat
  prevHash : Option (List UInt8)
  deriving DecidableEq, Repr

def VerifyState.fail (state : VerifyState) (height : Nat) (msg : String) : VerifyResult :=
  { ok := false
    blocksChecked := state.blocksChecked
    firstHeight := state.firstHeight
    lastHeight := state.lastHeight
    error := some ("height " ++ toString height ++ ": " ++ msg) }

variable (sha256 : Bulk.Sha256)

/-- What is wrong with a block's own bytes, if anything. -/
def verifyHeader (block : XdmpBlock) : Option String :=
  if block.blockBytes.length < HEADER_BYTES then
    some ("block too short to hold an 80-byte header (" ++ toString block.blockBytes.length ++ "B)")
  else if block.blockHash.length ≠ 32 then
    some "record blockHash is not a 32-byte buffer"
  else
    let computed := reverse32 (headerHash sha256 (block.blockBytes.take HEADER_BYTES))
    if computed ≠ block.blockHash then
      some ("block hash mismatch: record=" ++ hexText block.blockHash ++ " recomputed=" ++
        hexText computed)
    else none

/-- The Merkle check, when there is a decoder. -/
def verifyBody (decoder : Option (List UInt8 → Except String (List Hash))) (block : XdmpBlock) :
    Option String :=
  decoder.bind fun decode => Bulk.verifyMerkleRoot sha256 (decode block.blockBytes)
    (BitVec.ofNat 256 (ofBE (subarray block.blockBytes MERKLE_OFF 32)))

/-- The previous-hash field of a block's header, as hashes are displayed. -/
def headerPrev (block : XdmpBlock) : List UInt8 :=
  reverse32 (subarray (block.blockBytes.take HEADER_BYTES) PREV_OFF 32)

/-- What is wrong with a block: the first of the three checks that fails. -/
def blockError (decoder : Option (List UInt8 → Except String (List Hash))) (state : VerifyState)
    (block : XdmpBlock) : Option String :=
  (verifyHeader sha256 block).or ((verifyBody sha256 decoder block).or
    (verifyBackwardLink block.height (headerPrev block) state.prevHeight state.prevHash))

def VerifyState.next (state : VerifyState) (block : XdmpBlock) : VerifyState :=
  { blocksChecked := state.blocksChecked + 1
    firstHeight := if state.prevHash = none then some block.height else state.firstHeight
    lastHeight := some block.height
    prevHeight := some block.height
    prevHash := some block.blockHash }

/-- The loop over the blocks, which returns at the first that fails. -/
def verifyBlocks (decoder : Option (List UInt8 → Except String (List Hash))) :
    VerifyState → List XdmpBlock → Except VerifyResult VerifyState
  | state, [] => .ok state
  | state, block :: rest =>
      match blockError sha256 decoder state block with
      | some msg => .error (state.fail block.height msg)
      | none => verifyBlocks decoder (state.next block) rest

/-- What the loop has found when the blocks are at an end, or what it throws. -/
def verifySequence (decoder : Option (List UInt8 → Except String (List Hash)))
    (blocks : Generator XdmpBlock String) : Except String VerifyResult :=
  match verifyBlocks sha256 decoder ⟨0, none, none, none, none⟩ blocks.yielded with
  | .error result => .ok result
  | .ok state =>
      match blocks.thrown with
      | some e => .error e
      | none => .ok ⟨true, state.blocksChecked, state.firstHeight, state.lastHeight, none⟩

variable (decode : String → List UInt8 → Except String (List Hash))

def verifyBlockSequence (blocks : Generator XdmpBlock String) (opts : VerifyOpts) :
    Except String VerifyResult :=
  if opts.merkle then
    match opts.coin with
    | none => .error "verifyBlockSequence: opts.coin is required when opts.merkle is set"
    | some coin => verifySequence sha256 (some (decode coin)) blocks
  else verifySequence sha256 none blocks

/-! ### Dump files -/

structure FileRange where
  file : String × List UInt8
  firstHeight : Nat
  lastHeight : Nat
  chain : ChainName

def readRange (file : String × List UInt8) : Except String FileRange := do
  let reader ← XdmpReader.construct file.1 file.2
  .ok ⟨file, reader.firstHeight, reader.lastHeight, reader.chain⟩

/-- `path.basename` -/
def basename (filePath : String) : String :=
  let reversed := filePath.toList.reverse.dropWhile fun c => c = '/'
  String.ofList (reversed.takeWhile fun c => c ≠ '/').reverse

/-- The first range that does not follow the one before, and where it should start. -/
def firstGap : List FileRange → Option (FileRange × Nat)
  | before :: range :: rest =>
      if range.firstHeight ≠ before.lastHeight + 1 then some (range, before.lastHeight + 1)
      else firstGap (range :: rest)
  | _ => none

/-- The ranges in the order of their first heights; equal ones stay as they come. -/
def sortRanges (ranges : List FileRange) : List FileRange :=
  ranges.insertionSort fun a b => a.firstHeight ≤ b.firstHeight

/-- The result for sorted ranges. -/
def validateRanges (opts : VerifyOpts) : List FileRange → VerifyResult
  | [] => ⟨false, 0, none, none, some "no .xdmp files given"⟩
  | first :: rest =>
      match firstGap (first :: rest) with
      | some (range, expected) =>
          ⟨false, 0, some first.firstHeight, none,
            some ("dump files are not contiguous: " ++ basename range.file.1 ++ " starts at " ++
              toString range.firstHeight ++ ", expected " ++ toString expected)⟩
      | none =>
          let coin := opts.coin.getD first.chain.text
          match verifyBlockSequence sha256 decode
            (readFiles ((first :: rest).map FileRange.file)) ⟨opts.merkle, some coin⟩ with
          | .ok result => result
          | .error message => ⟨false, 0, none, none, some message⟩

/-- `files.map(readRange)` -/
def readRanges : List (String × List UInt8) → Except String (List FileRange)
  | [] => .ok []
  | file :: rest => do
      let range ← readRange file
      let ranges ← readRanges rest
      .ok (range :: ranges)

def validateChainFiles (files : List (String × List UInt8)) (opts : VerifyOpts) :
    Except String VerifyResult := do
  let ranges ← readRanges files
  .ok (validateRanges sha256 decode opts (sortRanges ranges))

end UtxoTracker.Xdmp

import UtxoTracker.Lib.ByteOrder
import UtxoTracker.Lib.ByteString
import UtxoTracker.Store.Records
/-!
# The bytes of a key

The key builders of `key_codec.js` on the texts and buffers they are called with. A builder checks the
length of each operand and writes them one after the other into a buffer that may hold anything.
-/

namespace UtxoTracker

open ByteOrder ByteString

/-- `Buffer.allocUnsafe`: a buffer of the size asked for, with whatever was in its memory. -/
abbrev AllocUnsafe := (size : Nat) → Vector UInt8 size

/-! ### Constants -/

def P_BLOCK : UInt8 := 0x42
def P_TX : UInt8 := 0x54
def P_INPUT : UInt8 := 0x49
def P_OUTPUT : UInt8 := 0x4F
def P_OUT_HINT : UInt8 := 0x48
def P_IN_HINT : UInt8 := 0x4A
def P_SCRIPT_BLK : UInt8 := 0x53
def P_BLK_SCRIPT : UInt8 := 0x5A
def P_OUT_DEL : UInt8 := 0x4B
def P_HINT_DEL : UInt8 := 0x4D
def P_STORED_BLK : UInt8 := 0x4E
def P_OUT_BLK : UInt8 := 0x57
def P_TX_EXACT : UInt8 := 0x58
def P_TX_BLOCK_RECOVERY : UInt8 := 0x59

/-- `Buffer.from(text)` of ASCII text. -/
def asciiBytes (text : List Char) : List UInt8 := text.map fun c => UInt8.ofNat c.toNat

def PREFIX_LAST_BLOCK_HEIGHT : List UInt8 :=
  asciiBytes ['L', 'A', 'S', 'T', '_', 'B', 'L', 'O', 'C', 'K', '_', 'H', 'E', 'I', 'G', 'H', 'T']

def PREFIX_LAST_BLOCK_HASH : List UInt8 :=
  asciiBytes ['L', 'A', 'S', 'T', '_', 'B', 'L', 'O', 'C', 'K', '_', 'H', 'A', 'S', 'H']

def PREFIX_LAYOUT_VERSION : List UInt8 :=
  asciiBytes ['L', 'A', 'Y', 'O', 'U', 'T', '_', 'V', 'E', 'R', 'S', 'I', 'O', 'N']

def P_PENDING_CLEANUP_KEY : List UInt8 := [0x50]
def Q_UNDO_WATERMARK_KEY : List UInt8 := [0x51]
def R_HALT_MARKER_KEY : List UInt8 := [0x52]

/-! ### Building a key -/

/-- `buf.write(hex, offset, 'hex')` and `copy`: bytes past the end of the buffer are dropped. -/
def writeAt (buf : List UInt8) (offset : Nat) (bytes : List UInt8) : List UInt8 :=
  buf.take offset ++ bytes.take (buf.length - offset) ++ buf.drop (offset + bytes.length)

/-- An operand of a builder, with the name its error gives it. -/
inductive KeyOperand where
  | hash (field : String) (hex : List Char)
  | buffer (field : String) (buf : List UInt8)
  | idx (n : Int)

namespace KeyOperand

def check (builder : String) : KeyOperand → Except String Unit
  | hash field hex =>
      if hex.length ≠ 64 then
        .error (builder ++ " expects a 64-hex (32-byte) " ++ field ++ ", got " ++
          toString hex.length ++ " chars")
      else .ok ()
  | buffer field buf =>
      if buf.length ≠ 32 then
        .error (builder ++ " expects a 32-byte " ++ field ++ " buffer, got " ++
          toString buf.length ++ " bytes")
      else .ok ()
  | idx _ => .ok ()

/-- The width of the operand's field. -/
def width : KeyOperand → Nat
  | hash _ _ | buffer _ _ => 32
  | idx _ => 4

/-- What is written: a text up to its first pair that is not a byte, an index as `n >>> 0`. -/
def bytes : KeyOperand → List UInt8
  | hash _ hex => ofHex hex
  | buffer _ buf => buf.take 32
  | idx n => toBE 4 (n % 2 ^ 32).toNat

end KeyOperand

def checkOperands (builder : String) : List KeyOperand → Except String Unit
  | [] => .ok ()
  | operand :: rest => do
      operand.check builder
      checkOperands builder rest

def writeOperands (buf : List UInt8) (offset : Nat) : List KeyOperand → List UInt8
  | [] => buf
  | operand :: rest =>
      writeOperands (writeAt buf offset operand.bytes) (offset + operand.width) rest

/-- One buffer with the family's byte and the operands behind it. -/
def buildKey (builder : String) (family : UInt8) (operands : List KeyOperand)
    (allocUnsafe : AllocUnsafe) : Except String (List UInt8) := do
  checkOperands builder operands
  let buf := (allocUnsafe (1 + (operands.map KeyOperand.width).sum)).toList
  .ok (writeOperands (buf.set 0 family) 1 operands)

section Builders

variable (allocUnsafe : AllocUnsafe)

def kBlock (blockHashHex : List Char) :=
  buildKey "kBlock" P_BLOCK [.hash "blockHash" blockHashHex] allocUnsafe

def kTx (txidHex : List Char) := buildKey "kTx" P_TX [.hash "txid" txidHex] allocUnsafe

def kInput (prevTxidHex : List Char) (idx : Int) :=
  buildKey "kInput" P_INPUT [.hash "prevTxid" prevTxidHex, .idx idx] allocUnsafe

def kOutput (scriptHex txidHex : List Char) (idx : Int) :=
  buildKey "kOutput" P_OUTPUT [.hash "scriptPubKey" scriptHex, .hash "txid" txidHex, .idx idx]
    allocUnsafe

def kOutHint (txidHex : List Char) (idx : Int) :=
  buildKey "kOutHint" P_OUT_HINT [.hash "txid" txidHex, .idx idx] allocUnsafe

def kInHint (txidHex prevTxidHex : List Char) (idx : Int) :=
  buildKey "kInHint" P_IN_HINT [.hash "txid" txidHex, .hash "prevTxid" prevTxidHex, .idx idx]
    allocUnsafe

def kScriptBlk (scriptHex : List Char) :=
  buildKey "kScriptBlk" P_SCRIPT_BLK [.hash "scriptPubKey" scriptHex] allocUnsafe

def kScriptBlkFromBuf (scriptBuf : List UInt8) :=
  buildKey "kScriptBlkFromBuf" P_SCRIPT_BLK [.buffer "scriptPubKey" scriptBuf] allocUnsafe

def kBlkScript (blockHashHex scriptHex : List Char) :=
  buildKey "kBlkScript" P_BLK_SCRIPT
    [.hash "blockHash" blockHashHex, .hash "scriptPubKey" scriptHex] allocUnsafe

def kBlkScriptFromBuf (blockHashHex : List Char) (scriptBuf : List UInt8) :=
  buildKey "kBlkScriptFromBuf" P_BLK_SCRIPT
    [.hash "blockHash" blockHashHex, .buffer "scriptPubKey" scriptBuf] allocUnsafe

def kOutDel (blockHashHex scriptHex txidHex : List Char) (idx : Int) :=
  buildKey "kOutDel" P_OUT_DEL
    [.hash "blockHash" blockHashHex, .hash "scriptPubKey" scriptHex, .hash "txid" txidHex, .idx idx]
    allocUnsafe

def kHintDel (blockHashHex txidHex : List Char) (idx : Int) :=
  buildKey "kHintDel" P_HINT_DEL [.hash "blockHash" blockHashHex, .hash "txid" txidHex, .idx idx]
    allocUnsafe

def kStoredBlk (blockHashHex : List Char) :=
  buildKey "kStoredBlk" P_STORED_BLK [.hash "blockHash" blockHashHex] allocUnsafe

def kOutBlk (blockHashHex txidHex : List Char) (idx : Int) :=
  buildKey "kOutBlk" P_OUT_BLK [.hash "blockHash" blockHashHex, .hash "txid" txidHex, .idx idx]
    allocUnsafe

def kTxExact (txidHex : List Char) :=
  buildKey "kTxExact" P_TX_EXACT [.hash "txid" txidHex] allocUnsafe

def kTxBlockRecovery (blockHashHex txidHex : List Char) :=
  buildKey "kTxBlockRecovery" P_TX_BLOCK_RECOVERY
    [.hash "blockHash" blockHashHex, .hash "txid" txidHex] allocUnsafe

def kOutputFromBuf (scriptPubKeyBuf : List UInt8) (txidHex : List Char) (idx : Int) :=
  buildKey "kOutputFromBuf" P_OUTPUT
    [.buffer "scriptPubKey" scriptPubKeyBuf, .hash "txid" txidHex, .idx idx] allocUnsafe

def kOutDelFromBuf (blockHashHex : List Char) (scriptPubKeyBuf : List UInt8) (txidHex : List Char)
    (idx : Int) :=
  buildKey "kOutDelFromBuf" P_OUT_DEL
    [.hash "blockHash" blockHashHex, .buffer "scriptPubKey" scriptPubKeyBuf, .hash "txid" txidHex,
      .idx idx] allocUnsafe

/-- The builder of a key's family on the key's operands. -/
def Key.build : Key → Except String (List UInt8)
  | .block h => kBlock allocUnsafe (hashText h)
  | .tx t => kTx allocUnsafe (hashText t)
  | .input t i => kInput allocUnsafe (hashText t) i
  | .output s t i => kOutput allocUnsafe (hashText s) (hashText t) i
  | .outHint t i => kOutHint allocUnsafe (hashText t) i
  | .inHint t p i => kInHint allocUnsafe (hashText t) (hashText p) i
  | .scriptBlk s => kScriptBlk allocUnsafe (hashText s)
  | .blkScript h s => kBlkScript allocUnsafe (hashText h) (hashText s)
  | .outDel h s t i => kOutDel allocUnsafe (hashText h) (hashText s) (hashText t) i
  | .hintDel h t i => kHintDel allocUnsafe (hashText h) (hashText t) i
  | .storedBlk h => kStoredBlk allocUnsafe (hashText h)
  | .outBlk h t i => kOutBlk allocUnsafe (hashText h) (hashText t) i
  | .txExact t => kTxExact allocUnsafe (hashText t)
  | .txBlockRecovery h t => kTxBlockRecovery allocUnsafe (hashText h) (hashText t)
  | .pendingCleanup => .ok P_PENDING_CLEANUP_KEY
  | .undoWatermark => .ok Q_UNDO_WATERMARK_KEY
  | .haltMarker => .ok R_HALT_MARKER_KEY
  | .lastBlockHash => .ok PREFIX_LAST_BLOCK_HASH
  | .lastBlockHeight => .ok PREFIX_LAST_BLOCK_HEIGHT
  | .layoutVersion => .ok PREFIX_LAYOUT_VERSION

end Builders

/-! ### Range scans -/

/-- `MAX_KEY_LEN` -/
def maxKeyLen : Nat := 101

/-- The inclusive upper bound of a scan. -/
def rangeEnd (start : List UInt8) : List UInt8 :=
  start ++ List.replicate (max 64 (maxKeyLen - start.length)) 0xFF

/-- An iterator with `gte: start` and `lte: rangeEnd(start)` over the rows of a store. -/
def iterator (rows : List (List UInt8 × List UInt8)) (start : List UInt8) :
    List (List UInt8 × List UInt8) :=
  rows.filter fun row => bytewiseLe start row.1 && bytewiseLe row.1 (rangeEnd start)

inductive PatternError where
  /-- `BAD_REQUEST` -/
  | badRequest (message : String)
  /-- `AddressTooLargeError` -/
  | addressTooLarge (maxOutputs : Nat)

/-- The loop over the rows of `getValuesFromKeyPattern`. -/
def pushValues (maxValues : Option Nat) :
    List (List UInt8 × List UInt8) → List (List Char × List Char) →
      Except PatternError (List (List Char × List Char))
  | [], values => .ok values
  | row :: rest, values =>
      match maxValues with
      | some bound =>
          if bound ≤ values.length then .error (.addressTooLarge bound)
          else pushValues maxValues rest (values ++ [(toHex row.1, toHex row.2)])
      | none => pushValues maxValues rest (values ++ [(toHex row.1, toHex row.2)])

/-- Hexadecimal text is decoded up to its first pair that is not a byte. -/
def getValuesFromKeyPattern (rows : List (List UInt8 × List UInt8))
    (pattern : List UInt8 ⊕ List Char) (maxValues : Option Nat) :
    Except PatternError (List (List Char × List Char)) :=
  let patternBuf := pattern.elim id ofHex
  if patternBuf.length < 2 then
    .error (.badRequest "pattern must decode to at least 2 bytes of key prefix")
  else pushValues maxValues (iterator rows patternBuf) []

end UtxoTracker

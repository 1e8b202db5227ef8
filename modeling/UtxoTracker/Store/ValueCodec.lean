import UtxoTracker.Store.KeyCodec
/-!
# The bytes of an `O` value

`encodeOutput` and `decodeOutput` of `value_codec.js`, and the bulk pipeline's way to the same bytes:
the record of the outputs stream, the fixed-width intermediate value derived from it, and the
loader's re-encoding of that value.
-/

namespace UtxoTracker.ValueCodec

open ByteString

/-- What `BigInt` is called with: a number, or a text of decimal digits. -/
inductive BigIntSource where
  | bigint (n : Int)
  | text (digits : String)

inductive CodecError where
  /-- A text that is not a number. -/
  | notBigInt (text : String)
  /-- A number that does not fit its field, or a field past the end of the buffer. -/
  | outOfRange
  | message (text : String)
  deriving DecidableEq

def bigInt : BigIntSource → Except CodecError Int
  | .bigint n => .ok n
  | .text digits =>
      if digits.toList.all Char.isDigit then .ok (Nat.ofDigitChars 10 digits.toList 0 : Nat)
      else .error (.notBigInt digits)

/-- `Buffer.alloc`: a buffer of zeros. -/
def alloc (size : Nat) : List UInt8 := List.replicate size 0

def writeBigUInt64BE (buf : List UInt8) (value : Int) (offset : Nat) :
    Except CodecError (List UInt8) :=
  if value < 0 ∨ 2 ^ 64 ≤ value then .error .outOfRange
  else .ok (writeAt buf offset (toBE 8 value.toNat))

def writeInt32BE (buf : List UInt8) (value : Int) (offset : Nat) :
    Except CodecError (List UInt8) :=
  if value < -2 ^ 31 ∨ 2 ^ 31 ≤ value then .error .outOfRange
  else .ok (writeAt buf offset (toIntBE 4 value))

/-- `buf.subarray(offset, offset + width)` -/
def subarray (buf : List UInt8) (offset width : Nat) : List UInt8 := (buf.drop offset).take width

def readBigUInt64BE (buf : List UInt8) (offset : Nat) : Except CodecError Nat :=
  if buf.length < offset + 8 then .error .outOfRange else .ok (ofBE (subarray buf offset 8))

def readInt32BE (buf : List UInt8) (offset : Nat) : Except CodecError Int :=
  if buf.length < offset + 4 then .error .outOfRange else .ok (ofIntBE (subarray buf offset 4))

/-! ### `encodeOutput` and `decodeOutput` -/

def ZERO_HASH : List Char := List.replicate 64 '0'

/-- The txid field stays zero without a text. -/
def writeFullTxHash (buf : List UInt8) : Option (List Char) → Except CodecError (List UInt8)
  | none | some [] => .ok buf
  | some hex =>
      if hex.length ≠ 64 then
        .error (.message ("encodeOutput expects a 64-hex (32-byte) fullTxHash, got " ++
          toString hex.length ++ " chars"))
      else .ok (writeAt buf 12 (ofHex hex))

def encodeOutput (value : BigIntSource) (height : Option Int) (fullTxHashHex : Option (List Char))
    (isCoinbase : Bool) : Except CodecError (List UInt8) := do
  let buf := alloc (if isCoinbase then 45 else 44)
  let satoshis ← bigInt value
  let buf ← writeBigUInt64BE buf satoshis 0
  let buf ← writeInt32BE buf (height.getD (-1)) 8
  let buf ← writeFullTxHash buf fullTxHashHex
  .ok (if isCoinbase then buf.set 44 1 else buf)

structure DecodedOutput where
  v : String
  h : Int
  t : Option (List Char)
  cb : Bool
  deriving DecidableEq

def decodeOutput (buf : List UInt8) : Except CodecError DecodedOutput := do
  let fullTxHash := toHex (subarray buf 12 32)
  let v ← readBigUInt64BE buf 0
  let h ← readInt32BE buf 8
  .ok
    { v := Nat.repr v
      h
      t := if fullTxHash = ZERO_HASH then none else some fullTxHash
      cb := decide (44 < buf.length) && decide (buf[44]? = some 1) }

/-! ### The bulk pipeline -/

/-- What `OutputsWriter.append` is called with. -/
structure OutputsAppend where
  txid : List UInt8
  vout : Int
  value : BigIntSource
  height : Int
  scriptPubKey : List UInt8
  blockHash : List UInt8
  isCoinbase : Bool

/-- The record `append` packs into its slot of the batch. -/
def OutputsAppend.pack (out : OutputsAppend) (slot : List UInt8) :
    Except CodecError (List UInt8) := do
  let b := writeAt slot 0 (out.txid.take 32)
  let b := writeAt b 32 (toBE 4 (out.vout % 2 ^ 32).toNat)
  let satoshis ← bigInt out.value
  let b ← writeBigUInt64BE b satoshis 36
  let b ← writeInt32BE b out.height 44
  let b := writeAt b 48 (out.scriptPubKey.take 32)
  let b := writeAt b 80 (out.blockHash.take 32)
  .ok (b.set 112 (if out.isCoinbase then 1 else 0))

/-- The `O` record that `writeLiveOutputRecords` derives from a live output's record. -/
def liveOutputRecord (rec : List UInt8) : List UInt8 :=
  P_OUTPUT :: (subarray rec 48 32 ++ (subarray rec 0 32 ++ (subarray rec 32 4 ++
    (subarray rec 36 8 ++ (subarray rec 44 4 ++ (subarray rec 0 32 ++
      [if rec[112]? = some 1 then 1 else 0]))))))

/-- The value of an `O` record: what follows its 69 key bytes. -/
def oValue (oRecord : List UInt8) : List UInt8 := subarray oRecord 69 45

def transformOValue (value : List UInt8) : Except CodecError (List UInt8) := do
  let sat ← readBigUInt64BE value 0
  let height ← readInt32BE value 8
  let fullTxHash := toHex (subarray value 12 32)
  let isCoinbase := decide (44 < value.length) && decide (value[44]? = some 1)
  encodeOutput (.bigint sat) (some height) (some fullTxHash) isCoinbase

end UtxoTracker.ValueCodec

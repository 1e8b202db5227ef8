import UtxoTracker.Lib.ByteString
import UtxoTracker.Lib.Chunks
/-!
# Merge-mined blocks without their proof of work

A merge-mined block carries the AuxPoW section between its header and its transactions. It is cut
out by the length of the node's header answer, by walking the section's bytes, or not at all: the
block is then put together again from its header and its transactions.
-/

namespace UtxoTracker.BlockchainConnector

open ByteString

abbrev Buffer := List UInt8

/-- The text of a node's hexadecimal answer. -/
abbrev HexString := List Char

/-! ### Varints -/

def encodeVarintHex (value : Nat) : Except String HexString :=
  if value < 0xFD then .ok ((Nat.toDigits 16 value).leftpad 2 '0')
  else if value ≤ 0xFFFF then .ok (toHex (0xFD :: toLE 2 value))
  else if value ≤ 0xFFFFFFFF then .ok (toHex (0xFE :: toLE 4 value))
  else .error ("encodeVarintHex: value out of supported range: " ++ toString value)

/-- `readUInt16LE` and `readUInt32LE`: a read past the end throws. -/
def readUIntLE (buf : Buffer) (width offset : Nat) : Except String Nat :=
  readLE "ERR_OUT_OF_RANGE" buf width offset

/-- `readVarint`: the value, and how many bytes it takes. Past the end of the buffer the first byte
is `undefined`, which no comparison matches. -/
def readVarint (buf : Buffer) (offset : Nat) : Except String (Nat × Nat) :=
  let eightBytes := do
    let lo ← readUIntLE buf 4 (offset + 1)
    let hi ← readUIntLE buf 4 (offset + 5)
    .ok (hi * 0x100000000 + lo, 9)
  match buf[offset]? with
  | none => eightBytes
  | some first =>
      if first < 0xFD then .ok (first.toNat, 1)
      else if first = 0xFD then do
        let value ← readUIntLE buf 2 (offset + 1)
        .ok (value, 3)
      else if first = 0xFE then do
        let value ← readUIntLE buf 4 (offset + 1)
        .ok (value, 5)
      else eightBytes

/-! ### Walking the section -/

/-- `if (offset + size > buf.length) throw` -/
def requireBytes (buf : Buffer) (size : Nat) (what : String) (offset : Nat) : Except String Nat :=
  if buf.length < offset + size then
    .error ("AuxPoW parse: buffer too short for " ++ what)
  else .ok offset

/-- A field of fixed size, checked and skipped. -/
def skipField (buf : Buffer) (size : Nat) (what : String) (offset : Nat) : Except String Nat := do
  let offset ← requireBytes buf size what offset
  .ok (offset + size)

/-- A varint and as many bytes as it says, which are not checked. -/
def skipSized (buf : Buffer) (offset : Nat) : Except String Nat := do
  let (value, bytes) ← readVarint buf offset
  .ok (offset + (bytes + value))

/-- A varint, then as many items. -/
def skipCounted (buf : Buffer) (skip : Nat → Except String Nat) (offset : Nat) :
    Except String Nat := do
  let (count, bytes) ← readVarint buf offset
  skipTimes skip count (offset + bytes)

def skipInput (buf : Buffer) (offset : Nat) : Except String Nat := do
  let offset ← skipField buf 36 "coinbase input prevout" offset
  let offset ← skipSized buf offset
  skipField buf 4 "coinbase input sequence" offset

structure CoinbaseInputs where
  offset : Nat
  hasSegwit : Bool
  nIns : Nat
  deriving DecidableEq, Repr

def skipCoinbaseInputs (buf : Buffer) (start : Nat) : Except String CoinbaseInputs := do
  let offset ← skipField buf 4 "coinbase version" start
  let hasSegwit := decide (buf[offset]? = some 0x00)
  let offset := if hasSegwit then offset + 2 else offset
  let (nIns, bytes) ← readVarint buf offset
  let offset ← skipTimes (skipInput buf) nIns (offset + bytes)
  .ok { offset, hasSegwit, nIns }

def skipOutput (buf : Buffer) (offset : Nat) : Except String Nat := do
  let offset ← skipField buf 8 "coinbase output value" offset
  skipSized buf offset

/-- One witness stack for each input, when there is a marker. -/
def skipWitness (buf : Buffer) (hasSegwit : Bool) (nIns offset : Nat) : Except String Nat :=
  if hasSegwit then skipTimes (skipCounted buf (skipSized buf)) nIns offset else .ok offset

def skipCoinbaseOutputs (buf : Buffer) (start : Nat) (hasSegwit : Bool) (nIns : Nat) :
    Except String Nat := do
  let offset ← skipCounted buf (skipOutput buf) start
  let offset ← skipWitness buf hasSegwit nIns offset
  skipField buf 4 "coinbase locktime" offset

/-- A merkle branch: a varint count, 32 bytes a hash, and an index of 4 bytes. -/
def skipBranch (buf : Buffer) (what : String) (offset : Nat) : Except String Nat := do
  let (count, bytes) ← readVarint buf offset
  skipField buf (count * 32 + 4) what (offset + bytes)

/-- `skipAuxPow`: the offset of the first byte after the section that starts at `start`. -/
def skipAuxPow (buf : Buffer) (start : Nat) : Except String Nat := do
  let coinbase ← skipCoinbaseInputs buf start
  let offset ← skipCoinbaseOutputs buf coinbase.offset coinbase.hasSegwit coinbase.nIns
  let offset ← skipField buf 32 "parent block hash" offset
  let offset ← skipBranch buf "coinbase branch" offset
  let offset ← skipBranch buf "chain branch" offset
  skipField buf 80 "parent block header" offset

/-! ### The stripped block -/

/-- What the code reads of a block that bitcoinjs has parsed. -/
structure ParsedBlock (τ : Type) where
  transactions : Option (List τ)
  merkleRoot : Buffer
  byteLength : Nat

/-- The functions of bitcoinjs that check a block. -/
structure BitcoinJs (τ : Type) where
  fromBuffer : Buffer → Except String (ParsedBlock τ)
  calculateMerkleRoot : List τ → Buffer

/-- At least one transaction, no byte after the last, and the header's merkle root. -/
def assertWholeBlock {τ : Type} (bitcoinjs : BitcoinJs τ) (blockHex : HexString) :
    Except String Unit :=
  let buf := ofHex blockHex
  if buf.length * 2 ≠ blockHex.length then
    .error "AuxPoW parse: stripped block is not whole hex bytes"
  else
    match bitcoinjs.fromBuffer buf with
    | .error message => .error ("AuxPoW parse: stripped block does not parse: " ++ message)
    | .ok block =>
        let txs := block.transactions.getD []
        if txs.length < 1 then .error "AuxPoW parse: stripped block holds no transactions"
        else if block.byteLength ≠ buf.length then
          .error ("AuxPoW parse: stripped block has "
            ++ toString ((buf.length : Int) - block.byteLength)
            ++ " bytes after its last transaction")
        else if bitcoinjs.calculateMerkleRoot txs ≠ block.merkleRoot then
          .error "AuxPoW parse: stripped block merkle root does not match its transactions"
        else .ok ()

/-- `parseInt(text, 16)` as the bit operators take it: the digits up to the first character that is
not one, and 0 when there is none. -/
def parseInt16 (text : HexString) : Nat :=
  (HexText.read (text.takeWhile fun c => (HexText.digitValue c).isSome)).getD 0

/-- The block version, from the number its first eight digits spell. -/
def blockVersion (versionLE : Nat) : Nat :=
  ((versionLE &&& 0xFF) <<< 24) ||| (((versionLE >>> 8) &&& 0xFF) <<< 16) |||
    (((versionLE >>> 16) &&& 0xFF) <<< 8) ||| ((versionLE >>> 24) &&& 0xFF)

def stripAuxPowFromBlockHex {τ : Type} (bitcoinjs : BitcoinJs τ) (headerHex blockHex : HexString) :
    Except String HexString :=
  if 160 < headerHex.length then do
    let dataToRemove := headerHex.length - 160
    let stripped := blockHex.take 160 ++ blockHex.drop (160 + dataToRemove)
    assertWholeBlock bitcoinjs stripped
    .ok stripped
  else if 8 ≤ blockHex.length ∧ blockVersion (parseInt16 (blockHex.take 8)) &&& 0x100 ≠ 0 then do
    let afterAuxPow ← skipAuxPow (ofHex blockHex) 80
    let stripped := blockHex.take 160 ++ blockHex.drop (afterAuxPow * 2)
    assertWholeBlock bitcoinjs stripped
    .ok stripped
  else .ok blockHex

/-! ### Putting a block together -/

/-- A fault, with the transport code it carries, if any. -/
structure RpcError where
  message : String
  code : Option String := none
  deriving DecidableEq, Repr

/-- The node's answers to the calls that reassembly makes. -/
structure BlockSource where
  getBlockHeader : Except RpcError HexString
  /-- The txids of the verbose block; `none` when the answer holds no `tx` array. -/
  getBlockVerbose : Except RpcError (Option (List String))
  /-- `none` for a transaction the node does not know. -/
  getRawTransaction : String → Except RpcError (Option HexString)

/-- `getRawTransactions`: `concurrency` at a time, in order. -/
def getRawTransactions (source : BlockSource) (concurrency : Nat) (txIdArray : List String) :
    Except RpcError (List (Option HexString)) := do
  let waves ← (Chunks.chunks concurrency txIdArray).mapM fun wave => wave.mapM source.getRawTransaction
  .ok waves.flatten

/-- The raw transactions, none of them missing or empty. -/
def requireRawTxs : List (String × Option HexString) → Except RpcError (List HexString)
  | [] => .ok []
  | (txid, txHex) :: rest =>
      match txHex.getD [] with
      | [] => .error { message := "no raw tx for in-block txid " ++ txid }
      | first :: more => do
          let txHexes ← requireRawTxs rest
          .ok ((first :: more) :: txHexes)

/-- `getBlockReassembled`. Its fault keeps the transport code of the one it wraps. -/
def getBlockReassembled (source : BlockSource) (concurrency : Nat) : Except RpcError HexString :=
  let parts : Except RpcError HexString := do
    let headerHex ← source.getBlockHeader
    match ← source.getBlockVerbose with
    | none => .error { message := "verbose getblock returned no tx array" }
    | some txids =>
        let txHexes ← getRawTransactions source concurrency txids
        let txHexes ← requireRawTxs (txids.zip txHexes)
        match encodeVarintHex txHexes.length with
        | .error message => .error { message }
        | .ok count => .ok (headerHex.take 160 ++ count ++ txHexes.flatten)
  match parts with
  | .ok blockHex => .ok blockHex
  | .error error =>
      .error
        { message := "There were problems reassembling a block without auxpow. " ++ error.message
          code := error.code }

end UtxoTracker.BlockchainConnector

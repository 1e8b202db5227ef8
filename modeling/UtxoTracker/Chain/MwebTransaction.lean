import UtxoTracker.Chain.AuxPow
/-!
# Litecoin's flagged transactions

A transaction with an MWEB part is serialized with flag 8, or 9 when it carries witnesses. Its bytes
are walked to find where the MWEB part starts, and the transaction is built without that part: by
bitcoinjs from the canonical bytes, or field by field when it has no inputs.
-/

namespace UtxoTracker.BlockDecoder

open ByteString
open BlockchainConnector (Buffer HexString)

def litecoinHogexFlag : UInt8 := 0x08
def litecoinMwebSegwitFlag : UInt8 := 0x09

/-- `Number.MAX_SAFE_INTEGER` -/
def maxSafeInteger : Nat := 2 ^ 53 - 1

inductive DecodeError where
  | error (message : String)
  | transactionParse (message : String)
  /-- A read past the end of a Buffer. -/
  | outOfRange
  deriving DecidableEq, Repr

def DecodeError.message : DecodeError → String
  | .error message => message
  | .transactionParse message => message
  | .outOfRange => "ERR_OUT_OF_RANGE"

/-- `transactionParseError`: a cause of that class is kept as it is. -/
def transactionParseError (message : String) : DecodeError → DecodeError
  | .transactionParse cause => .transactionParse cause
  | _ => .transactionParse message

/-! ### Transactions, as bitcoinjs has them -/

structure TxInput where
  hash : Buffer
  index : UInt32
  script : Buffer
  sequence : UInt32
  witness : List Buffer
  hash_length : hash.length = 32
  deriving DecidableEq

structure TxOutput where
  script : Buffer
  value : UInt64
  deriving DecidableEq

structure Transaction where
  version : Int32
  ins : List TxInput
  outs : List TxOutput
  locktime : UInt32
  deriving DecidableEq

/-- bitcoinjs's reader; without `noStrict` the transaction must end with the buffer. -/
structure BitcoinJs where
  fromBuffer : Buffer → (noStrict : Bool) → Except String Transaction
  byteLength : Transaction → Nat

/-- `buf.subarray(from, to)` -/
def subarray (buf : Buffer) (first last : Nat) : Buffer := (buf.drop first).take (last - first)

/-- `readUInt16LE`, `readUInt32LE` and `readBigUInt64LE`. -/
def readUIntLE (buf : Buffer) (width offset : Nat) : Except DecodeError Nat :=
  readLE .outOfRange buf width offset

def readInt32LE (buf : Buffer) (offset : Nat) : Except DecodeError Int32 := do
  let bits ← readUIntLE buf 4 offset
  .ok (UInt32.ofNat bits).toInt32

/-! ### The walk -/

def mwebShortError (what : String) : DecodeError :=
  .error ("MWEB tx parse: buffer too short for " ++ what)

def skipMwebBytes (buf : Buffer) (count : Nat) (what : String) (offset : Nat) :
    Except DecodeError Nat :=
  if buf.length < offset + count then .error (mwebShortError what) else .ok (offset + count)

/-- The bytes behind the first byte of a CompactSize. -/
def mwebWidth (first : UInt8) : Nat := if first = 0xFD then 2 else if first = 0xFE then 4 else 8

/-- `readMwebCompactSize`: the value, and where it ends. -/
def readMwebCompactSize (buf : Buffer) (what : String) (offset : Nat) :
    Except DecodeError (Nat × Nat) :=
  match buf[offset]? with
  | none => .error (mwebShortError what)
  | some first =>
      if first < 0xFD then .ok (first.toNat, offset + 1)
      else do
        let last ← skipMwebBytes buf (mwebWidth first) what (offset + 1)
        let value ← readUIntLE buf (mwebWidth first) (offset + 1)
        if mwebWidth first = 8 ∧ maxSafeInteger < value then
          .error (.transactionParse ("MWEB tx parse: " ++ what ++ " exceeds Number.MAX_SAFE_INTEGER"))
        else .ok (value, last)

def skipMwebVarBytes (buf : Buffer) (what : String) (offset : Nat) : Except DecodeError Nat := do
  let (length, last) ← readMwebCompactSize buf what offset
  skipMwebBytes buf length what last

/-- A round of the loop over the inputs. -/
def skipMwebInput (buf : Buffer) (offset : Nat) : Except DecodeError Nat := do
  let offset ← skipMwebBytes buf 36 "input prevout" offset
  let offset ← skipMwebVarBytes buf "input script" offset
  skipMwebBytes buf 4 "input sequence" offset

/-- A round of the loop over the outputs. -/
def skipMwebOutput (buf : Buffer) (offset : Nat) : Except DecodeError Nat := do
  let offset ← skipMwebBytes buf 8 "output value" offset
  skipMwebVarBytes buf "output script" offset

/-- A count, and as many rounds. -/
def skipMwebCounted (buf : Buffer) (what : String) (skip : Nat → Except DecodeError Nat)
    (offset : Nat) : Except DecodeError Nat := do
  let (count, offset) ← readMwebCompactSize buf what offset
  skipTimes skip count offset

structure InsAndOuts where
  last : Nat
  outsStart : Nat
  nIns : Nat
  deriving DecidableEq, Repr

def skipMwebInsAndOuts (buf : Buffer) (offset : Nat) : Except DecodeError InsAndOuts := do
  let (nIns, offset) ← readMwebCompactSize buf "input count" offset
  let outsStart ← skipTimes (skipMwebInput buf) nIns offset
  let last ← skipMwebCounted buf "output count" (skipMwebOutput buf) outsStart
  .ok { last, outsStart, nIns }

/-- A round of the loop over the witness stacks. -/
def skipMwebStack (buf : Buffer) (offset : Nat) : Except DecodeError Nat :=
  skipMwebCounted buf "witness item count" (skipMwebVarBytes buf "witness item") offset

def skipMwebWitness (buf : Buffer) (nIns offset : Nat) : Except DecodeError Nat :=
  skipTimes (skipMwebStack buf) nIns offset

/-- Where the witness ends; without the flag, where it would start. -/
def skipFlaggedWitness (buf : Buffer) (withWitness : Bool) (nIns offset : Nat) :
    Except DecodeError Nat :=
  if withWitness then skipMwebWitness buf nIns offset else .ok offset

def hasMwebFlag (buf : Buffer) (offset : Nat) : Bool :=
  if buf.length - offset < 6 then false
  else
    let version := ofLE ((buf.drop offset).take 4)
    (version == 1 || version == 2) && buf[offset + 4]? == some 0x00 &&
      (buf[offset + 5]? == some litecoinHogexFlag || buf[offset + 5]? == some litecoinMwebSegwitFlag)

/-! ### The transaction -/

/-- The outputs, once the walk has passed over them. -/
def readOutputs (buf : Buffer) : Nat → Nat → Except DecodeError (List TxOutput)
  | 0, _ => .ok []
  | count + 1, offset => do
      let value ← readUIntLE buf 8 offset
      let (length, scriptAt) ← readMwebCompactSize buf "output script" (offset + 8)
      let rest ← readOutputs buf count (scriptAt + length)
      let script := subarray buf scriptAt (scriptAt + length)
      .ok ({ script, value := UInt64.ofNat value } :: rest)

def buildInputlessTransaction (buf : Buffer) (start outsStart lockTimeAt : Nat) :
    Except DecodeError Transaction := do
  let version ← readInt32LE buf start
  let (nOuts, offset) ← readMwebCompactSize buf "output count" outsStart
  let outs ← readOutputs buf nOuts offset
  let locktime ← readUIntLE buf 4 lockTimeAt
  .ok { version, ins := [], outs, locktime := UInt32.ofNat locktime }

/-- Where the locktime stands: behind a null tag, or four bytes before the end of a standalone
transaction. -/
def locateLockTime (buf : Buffer) (standalone : Bool) (witnessEnd : Nat) :
    Except DecodeError Nat := do
  let lockTimeAt ← skipMwebBytes buf 1 "MWEB tag" witnessEnd
  if buf[witnessEnd]? = some 0x00 then .ok lockTimeAt
  else if standalone = false then
    .error (.error "MWEB tx parse: a non-null MWEB part inside a block has no recorded length")
  else if buf.length < lockTimeAt + 4 then .error (mwebShortError "locktime")
  else .ok (buf.length - 4)

/-- The bytes bitcoinjs is given: without the MWEB flag and part. -/
def plainBytes (buf : Buffer) (start : Nat) (withWitness : Bool)
    (witnessEnd lockTimeAt last : Nat) : Buffer :=
  subarray buf start (start + 4) ++ ((if withWitness then [0x00, 0x01] else []) ++
    (subarray buf (start + 6) witnessEnd ++ subarray buf lockTimeAt last))

/-- Without inputs the transaction is built here, with inputs it is bitcoinjs's. -/
def buildTransaction (bitcoinjs : BitcoinJs) (buf : Buffer) (start : Nat) (withWitness : Bool)
    (insOuts : InsAndOuts) (witnessEnd lockTimeAt last : Nat) : Except DecodeError Transaction :=
  if insOuts.nIns = 0 then buildInputlessTransaction buf start insOuts.outsStart lockTimeAt
  else
    (bitcoinjs.fromBuffer (plainBytes buf start withWitness witnessEnd lockTimeAt last)
      false).mapError .error

/-- `readMwebFlaggedTransaction`: the transaction, and the bytes consumed. -/
def readMwebFlaggedTransaction (bitcoinjs : BitcoinJs) (buf : Buffer) (start : Nat)
    (standalone : Bool) : Except DecodeError (Transaction × Nat) := do
  -- Past the end the byte is `undefined`, and `undefined & 1` is 0.
  let withWitness := decide ((buf[start + 5]?.getD 0) &&& 1 = 1)
  let insOuts ← skipMwebInsAndOuts buf (start + 6)
  let witnessEnd ← skipFlaggedWitness buf withWitness insOuts.nIns insOuts.last
  let lockTimeAt ← locateLockTime buf standalone witnessEnd
  let last ← skipMwebBytes buf 4 "locktime" lockTimeAt
  let tx ← buildTransaction bitcoinjs buf start withWitness insOuts witnessEnd lockTimeAt last
  .ok (tx, last - start)

/-- `readMwebTransactions`, for the transactions that remain: them, whether the last one is
flagged, and where they end. -/
def readMwebTransactions (bitcoinjs : BitcoinJs) (buf : Buffer) :
    Nat → Nat → Except DecodeError (List Transaction × Bool × Nat)
  | 0, offset => .ok ([], false, offset)
  | remaining + 1, offset =>
      if remaining = 0 ∧ hasMwebFlag buf offset then do
        let (tx, consumed) ← readMwebFlaggedTransaction bitcoinjs buf offset false
        .ok ([tx], true, offset + consumed)
      else do
        let tx ← (bitcoinjs.fromBuffer (buf.drop offset) true).mapError .error
        let (txs, hogExLast, last) ←
          readMwebTransactions bitcoinjs buf remaining (offset + bitcoinjs.byteLength tx)
        .ok (tx :: txs, hogExLast, last)

/-! ### Hex text -/

/-- What `txFromHex` throws for bytes behind the transaction. -/
def trailingError (length consumed : Nat) : DecodeError :=
  .transactionParse ("Transaction has " ++ toString ((length : Int) - consumed) ++ " trailing byte(s)")

/-- The bytes of a transaction, of a coin of the given wire format. -/
def txFromBuffer (bitcoinjs : BitcoinJs) (wireFormat : String) (buffer : Buffer) :
    Except DecodeError Transaction :=
  if wireFormat = "mweb" ∧ hasMwebFlag buffer 0 then do
    let (tx, consumed) ← readMwebFlaggedTransaction bitcoinjs buffer 0 true
    if consumed ≠ buffer.length then .error (trailingError buffer.length consumed) else .ok tx
  else do
    let tx ← (bitcoinjs.fromBuffer buffer true).mapError .error
    if bitcoinjs.byteLength tx ≠ buffer.length then
      .error (trailingError buffer.length (bitcoinjs.byteLength tx))
    else .ok tx

def txFromHex (bitcoinjs : BitcoinJs) (wireFormat : String) (hexString : HexString) :
    Except DecodeError Transaction :=
  let read :=
    if hexString = [] ∨ hexString.length % 2 ≠ 0 ∨
        ¬ hexString.all fun c => (HexText.digitValue c).isSome then
      .error (.transactionParse
        "Transaction hex must be a non-empty, even-length hexadecimal string")
    else txFromBuffer bitcoinjs wireFormat (ofHex hexString)
  read.mapError fun err =>
    transactionParseError ("Transaction parse failed: " ++ err.message) err

end UtxoTracker.BlockDecoder

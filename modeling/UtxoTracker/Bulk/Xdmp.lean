import UtxoTracker.Lib.Generator
import UtxoTracker.Store.ValueCodec
/-!
# Block dump files

The writer of `xdmp_writer.js` and the reader of `xdmp_reader.js`. A `.xdmp` file is a header of 64
bytes and, for each block in ascending order, a prefix of 40 bytes and the block. A file is the list
of its bytes, and reading at a position gives what is left of it up to the length asked for.
-/

namespace UtxoTracker.Xdmp

open ByteString ValueCodec

inductive ChainName where
  | bitcoin
  | litecoin
  | dogecoin
  deriving DecidableEq, Repr

inductive NetworkName where
  | mainnet
  | testnet
  | regtest
  deriving DecidableEq, Repr

def ChainName.text : ChainName → String
  | bitcoin => "bitcoin"
  | litecoin => "litecoin"
  | dogecoin => "dogecoin"

def NetworkName.text : NetworkName → String
  | mainnet => "mainnet"
  | testnet => "testnet"
  | regtest => "regtest"

def CHAIN_CODES : ChainName → UInt8
  | .bitcoin => 1
  | .litecoin => 2
  | .dogecoin => 3

def NETWORK_CODES : NetworkName → UInt8
  | .mainnet => 1
  | .testnet => 2
  | .regtest => 3

def CHAIN_NAMES (code : UInt8) : Option ChainName :=
  [ChainName.bitcoin, .litecoin, .dogecoin].find? fun chain => CHAIN_CODES chain = code

def NETWORK_NAMES (code : UInt8) : Option NetworkName :=
  [NetworkName.mainnet, .testnet, .regtest].find? fun network => NETWORK_CODES network = code

def HEADER_SIZE : Nat := 64
def RECORD_PREFIX : Nat := 40
def FILE_VERSION : Nat := 1
def MAX_BLOCK_SIZE : Nat := 32 * 1024 * 1024
def INITIAL_DATA_BUF : Nat := 4 * 1024 * 1024

/-- `XCHNDMP1` -/
def MAGIC : List UInt8 := [0x58, 0x43, 0x48, 0x4E, 0x44, 0x4D, 0x50, 0x31]

/-! ### The writer -/

inductive WriteError where
  /-- A number that does not fit its field. -/
  | outOfRange
  | message (text : String)
  deriving DecidableEq, Repr

def writeUInt32LE (buf : List UInt8) (value : Int) (offset : Nat) :
    Except WriteError (List UInt8) :=
  if value < 0 ∨ 2 ^ 32 ≤ value then .error .outOfRange
  else .ok (writeAt buf offset (toLE 4 value.toNat))

def makeHeader (chain : ChainName) (netName : NetworkName)
    (firstHeight lastHeight chainTipAtDump : Nat) : Except WriteError (List UInt8) := do
  let buf := writeAt (alloc HEADER_SIZE) 0 MAGIC
  let buf := writeAt buf 8 [CHAIN_CODES chain]
  let buf := writeAt buf 9 [NETWORK_CODES netName]
  let buf := writeAt buf 10 (toLE 2 FILE_VERSION)
  let buf ← writeUInt32LE buf firstHeight 12
  let buf ← writeUInt32LE buf lastHeight 16
  let buf ← writeUInt32LE buf (lastHeight - firstHeight + 1) 20
  writeUInt32LE buf chainTipAtDump 24

def padStart (width : Nat) (text : String) : String :=
  String.ofList (List.replicate (width - text.length) '0') ++ text

def chunkFileName (chain : ChainName) (netName : NetworkName) (start stop : Nat) : String :=
  "blocks-" ++ chain.text ++ "-" ++ netName.text ++ "-" ++ padStart 8 (Nat.repr start) ++ "-" ++
    padStart 8 (Nat.repr stop) ++ ".xdmp"

/-- A block as the node's connector gives it. -/
structure DumpBlock where
  height : Nat
  hash : List Char
  hex : List Char
  deriving DecidableEq, Repr

/-- What one round of `writeBlockRecords` writes. -/
def blockRecord (block : DumpBlock) : Except WriteError (List UInt8) := do
  let blockBytes := ofHex block.hex
  if blockBytes.length = 0 ∨ MAX_BLOCK_SIZE < blockBytes.length then
    .error (.message ("block " ++ toString block.height ++ " has invalid size " ++
      toString blockBytes.length))
  else
    let hashBytes := ofHex block.hash
    if hashBytes.length ≠ 32 then
      .error (.message ("block " ++ toString block.height ++ " has invalid hash length " ++
        toString hashBytes.length))
    else
      let record ← writeUInt32LE (alloc RECORD_PREFIX) blockBytes.length 0
      let record ← writeUInt32LE record block.height 4
      .ok (writeAt record 8 hashBytes ++ blockBytes)

/-- The file after the records of `blocks`. -/
def writeBlockRecords (file : List UInt8) : List DumpBlock → Except WriteError (List UInt8)
  | [] => .ok file
  | block :: rest => do
      let record ← blockRecord block
      writeBlockRecords (file ++ record) rest

/-! ### The reader -/

/-- The bytes that a read of `length` bytes at `position` finds. -/
def readSync (file : List UInt8) (length position : Nat) : List UInt8 :=
  subarray file position length

def readUInt32LE (buf : List UInt8) (offset : Nat) : Nat := ofLE (subarray buf offset 4)

/-- `toString('ascii')`: the high bit of each byte is dropped. -/
def asciiText (bytes : List UInt8) : String :=
  String.ofList (bytes.map fun byte => Char.ofNat (byte.toNat % 128))

structure XdmpReader where
  filePath : String
  chain : ChainName
  network : NetworkName
  version : Nat
  firstHeight : Nat
  lastHeight : Nat
  blockCount : Nat
  chainTipAtDump : Nat
  deriving DecidableEq, Repr

def fail (filePath msg : String) : String := "[xdmp-reader] " ++ filePath ++ ": " ++ msg

/-- The reader of a header that names a chain and a network. -/
def XdmpReader.ofHeader (filePath : String) (hdr : List UInt8) (chain : ChainName)
    (network : NetworkName) : XdmpReader :=
  { filePath
    chain
    network
    version := ofLE (subarray hdr 10 2)
    firstHeight := readUInt32LE hdr 12
    lastHeight := readUInt32LE hdr 16
    blockCount := readUInt32LE hdr 20
    chainTipAtDump := readUInt32LE hdr 24 }

def XdmpReader.expectedCount (reader : XdmpReader) : Int :=
  reader.lastHeight - reader.firstHeight + 1

/-- The checks that the constructor makes of the codes and the version. -/
def checkCodes (filePath : String) (hdr : List UInt8) : Except String XdmpReader :=
  let chainCode := hdr.getD 8 0
  let netCode := hdr.getD 9 0
  let version := ofLE (subarray hdr 10 2)
  match CHAIN_NAMES chainCode with
  | none => .error (fail filePath ("unknown chain_code " ++ toString chainCode.toNat))
  | some chain =>
      match NETWORK_NAMES netCode with
      | none => .error (fail filePath ("unknown net_code " ++ toString netCode.toNat))
      | some network =>
          if version ≠ FILE_VERSION then
            .error (fail filePath ("unsupported version " ++ toString version))
          else .ok (XdmpReader.ofHeader filePath hdr chain network)

/-- The constructor. -/
def XdmpReader.construct (filePath : String) (file : List UInt8) : Except String XdmpReader := do
  let hdr := readSync file HEADER_SIZE 0
  if hdr.length ≠ HEADER_SIZE then
    .error (fail filePath ("short header read: " ++ toString hdr.length ++ "/" ++
      toString HEADER_SIZE ++ " bytes"))
  else if hdr.take 8 ≠ MAGIC then
    .error (fail filePath ("bad magic: expected XCHNDMP1, got " ++ asciiText (hdr.take 8)))
  else
    let reader ← checkCodes filePath hdr
    if (reader.blockCount : Int) ≠ reader.expectedCount then
      .error (fail filePath ("block_count mismatch: header says " ++ toString reader.blockCount ++
        ", heights imply " ++ toString reader.expectedCount))
    else .ok reader

/-- A block record as the reader yields it. -/
structure XdmpBlock where
  height : Nat
  blockHash : List UInt8
  blockBytes : List UInt8
  deriving DecidableEq, Repr

/-- The reader between two rounds of `blocks`. -/
structure ReadState where
  pos : Nat
  prevHeight : Int
  dataBuf : List UInt8

/-- The scratch buffer, made anew when the block does not fit, and what was read into it. -/
def fillData (dataBuf read : List UInt8) (blockSize : Nat) : List UInt8 :=
  writeAt (if dataBuf.length < blockSize then alloc blockSize else dataBuf) 0 read

/-- One round of `blocks`, `blocksRead` blocks into the file: the block it yields, and where it
stands after. -/
def XdmpReader.readBlock (reader : XdmpReader) (file : List UInt8) (blocksRead : Nat)
    (state : ReadState) : Except String (XdmpBlock × ReadState) :=
  let prefixBuf := readSync file RECORD_PREFIX state.pos
  let blockSize := readUInt32LE prefixBuf 0
  let height := readUInt32LE prefixBuf 4
  let data := readSync file blockSize (state.pos + RECORD_PREFIX)
  let dataBuf := fillData state.dataBuf data blockSize
  if prefixBuf.length ≠ RECORD_PREFIX then
    .error (fail reader.filePath ("short prefix read at block " ++ toString blocksRead ++ "/" ++
      toString reader.blockCount ++ ": " ++ toString prefixBuf.length ++ " bytes"))
  else if blockSize = 0 ∨ MAX_BLOCK_SIZE < blockSize then
    .error (fail reader.filePath ("invalid block_size " ++ toString blockSize ++ " at height " ++
      toString height))
  else if (height : Int) ≠ state.prevHeight + 1 then
    .error (fail reader.filePath ("height gap: expected " ++ toString (state.prevHeight + 1) ++
      ", got " ++ toString height))
  else if data.length ≠ blockSize then
    .error (fail reader.filePath ("short data read at height " ++ toString height ++
      ": expected " ++ toString blockSize ++ ", got " ++ toString data.length))
  else
    .ok (⟨height, subarray prefixBuf 8 32, subarray dataBuf 0 blockSize⟩,
      ⟨state.pos + RECORD_PREFIX + blockSize, height, dataBuf⟩)

/-- The rounds that are left, the file's last `remaining` blocks. -/
def XdmpReader.readBlocks (reader : XdmpReader) (file : List UInt8) :
    Nat → ReadState → Generator XdmpBlock String
  | 0, _ => .ended []
  | remaining + 1, state =>
      match reader.readBlock file (reader.blockCount - (remaining + 1)) state with
      | .error e => .throw e
      | .ok (block, state) => .cons block (reader.readBlocks file remaining state)

def XdmpReader.blocks (reader : XdmpReader) (file : List UInt8) : Generator XdmpBlock String :=
  reader.readBlocks file reader.blockCount
    ⟨HEADER_SIZE, (reader.firstHeight : Int) - 1, alloc INITIAL_DATA_BUF⟩

/-- A reader constructed and read to its end. -/
def readFile (filePath : String) (file : List UInt8) : Generator XdmpBlock String :=
  match XdmpReader.construct filePath file with
  | .error e => .throw e
  | .ok reader => reader.blocks file

/-- Files read one after the other, as long as none throws. -/
def readFiles : List (String × List UInt8) → Generator XdmpBlock String
  | [] => .ended []
  | (filePath, file) :: rest => (readFile filePath file).delegate (readFiles rest)

end UtxoTracker.Xdmp

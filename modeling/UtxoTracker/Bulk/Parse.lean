import UtxoTracker.Tracker.State
/-!
# Parse streams

The first half of the bulk pipeline. A worker turns the blocks of one dump into three streams of
records, each with a header that names its range; the merge concatenates the files of each stream.
-/

namespace UtxoTracker.Bulk

/-! ### Records -/

/-- One record of `outputs-*.dat`. -/
structure OutputsRecord where
  txid : Hash
  vout : Nat
  value : Nat
  height : Nat
  scriptPubKey : Hash
  blockHash : Hash
  coinbase : Bool
  deriving DecidableEq, Repr

/-- One record of `spends-*.dat`. -/
structure SpendsRecord where
  prevTxid : Hash
  prevVout : Nat
  spenderTxid : Hash
  deriving DecidableEq, Repr

/-- One record of `meta-*.dat`. -/
structure MetaRecord where
  height : Nat
  timestamp : Nat
  blockHash : Hash
  previousHash : Hash
  txidList : List Hash
  deriving DecidableEq, Repr

/-- The sort and join key of an outputs record, its first 36 bytes. -/
def OutputsRecord.key (record : OutputsRecord) : List Nat := [record.txid.toNat, record.vout]

/-- The sort and join key of a spends record, its first 36 bytes. -/
def SpendsRecord.key (record : SpendsRecord) : List Nat := [record.prevTxid.toNat, record.prevVout]

/-- `OUTPUTS_RECORD_SIZE` -/
def outputsRecordSize : Nat := 113

/-- `SPENDS_RECORD_SIZE` -/
def spendsRecordSize : Nat := 68

/-! ### Processing a block -/

/-- The generation transaction has exactly one input, the null prevout. -/
def isCoinbase (tx : Tx) : Bool :=
  match tx.ins with
  | [input] => input.index = coinbaseIndex
  | _ => false

/-- `appendOutputs` -/
def outputsOf (tx : Tx) (height : Nat) (blockHash : Hash) : List OutputsRecord :=
  tx.outs.mapIdx fun vout output =>
    { txid := tx.id
      vout
      value := output.value
      height
      scriptPubKey := output.scriptHash
      blockHash
      coinbase := isCoinbase tx }

/-- `appendSpends` -/
def spendsOf (tx : Tx) : List SpendsRecord :=
  (tx.ins.filter fun input => !(input.index = coinbaseIndex || !input.standardInput)).map
    fun input => ⟨input.hash, input.index, tx.id⟩

/-- What `processBlock` writes for one block. -/
def blockOutputs (block : Block) (height : Nat) : List OutputsRecord :=
  block.transactions.flatMap fun tx => outputsOf tx height block.hash

def blockSpends (block : Block) : List SpendsRecord := block.transactions.flatMap spendsOf

def blockMeta (block : Block) (height : Nat) : MetaRecord :=
  { height
    timestamp := block.timestamp
    blockHash := block.hash
    previousHash := block.prevHash
    txidList := block.transactions.map Tx.id }

/-! ### Files -/

/-- The magics of the three streams. -/
inductive Magic where
  | outputs
  | spends
  | blockMeta
  deriving DecidableEq, Repr

/-- The fields of the 64-byte header. `recordSize` is 0 for the variable-length meta stream. -/
structure DatHeader where
  magic : Magic
  chain : Nat
  net : Nat
  firstHeight : Nat
  lastHeight : Nat
  recordCount : Nat
  recordSize : Nat
  deriving DecidableEq, Repr

structure DatFile (ρ : Type) where
  path : String
  header : DatHeader
  body : List ρ
  deriving DecidableEq, Repr

/-- The chain and network codes of a run. -/
structure Network where
  chain : Nat
  net : Nat
  deriving DecidableEq, Repr

/-- The range that one dump holds, and its blocks in height order. -/
structure Dump where
  firstHeight : Nat
  blocks : List Block
  deriving DecidableEq, Repr

def Dump.lastHeight (dump : Dump) : Nat := dump.firstHeight + dump.blocks.length - 1

/-- The blocks of a dump, each with its height. -/
def Dump.heights (dump : Dump) : List (Block × Nat) := dump.blocks.zipIdx dump.firstHeight

/-- Dumps of consecutive non-empty ranges, the first one from height `start`. -/
def Contiguous : Nat → List Dump → Prop
  | _, [] => True
  | start, dump :: rest =>
      dump.firstHeight = start ∧ dump.blocks ≠ [] ∧ Contiguous (start + dump.blocks.length) rest

/-- The dumps cut a chain, its newest block first, into ranges from height 0. -/
structure CutInto (chain : List Block) (dumps : List Dump) : Prop where
  contiguous : Contiguous 0 dumps
  blocks : dumps.flatMap Dump.blocks = chain.reverse

/-- `h8`: a height as eight digits. -/
def h8 (height : Nat) : String :=
  let digits := toString height
  String.ofList (List.replicate (8 - digits.length) '0') ++ digits

/-- `outPaths`: the file name of one stream of a range. -/
def outPath (magic : Magic) (firstHeight lastHeight : Nat) : String :=
  let name :=
    match magic with
    | .outputs => "outputs"
    | .spends => "spends"
    | .blockMeta => "meta"
  name ++ "-h" ++ h8 firstHeight ++ "-h" ++ h8 lastHeight ++ ".dat"

/-- A closed file: its header carries the range and the number of records. -/
def closeFile {ρ : Type} (network : Network) (dump : Dump) (magic : Magic) (recordSize : Nat)
    (records : List ρ) : DatFile ρ :=
  { path := outPath magic dump.firstHeight dump.lastHeight
    header :=
      { magic
        chain := network.chain
        net := network.net
        firstHeight := dump.firstHeight
        lastHeight := dump.lastHeight
        recordCount := records.length
        recordSize }
    body := records }

/-- The outputs file of a worker. -/
def parseOutputs (network : Network) (dump : Dump) : DatFile OutputsRecord :=
  closeFile network dump .outputs outputsRecordSize
    (dump.heights.flatMap fun entry => blockOutputs entry.1 entry.2)

/-- The spends file of a worker. -/
def parseSpends (network : Network) (dump : Dump) : DatFile SpendsRecord :=
  closeFile network dump .spends spendsRecordSize
    (dump.heights.flatMap fun entry => blockSpends entry.1)

/-- The meta file of a worker. -/
def parseMeta (network : Network) (dump : Dump) : DatFile MetaRecord :=
  closeFile network dump .blockMeta 0 (dump.heights.map fun entry => blockMeta entry.1 entry.2)

/-! ### Concatenation -/

/-- Why a concatenation is refused. -/
inductive ConcatError where
  | noInputs
  /-- A record count of 0 over a body: the worker crashed. -/
  | crashed (path : String)
  /-- A header field differs from the first input's. -/
  | mixed (path field : String)
  /-- The range does not start where the one before it ended. -/
  | gap (path : String) (firstHeight expected : Nat)
  deriving DecidableEq, Repr

/-- The first field in which two headers differ, of those that must agree. -/
def mixedField (first this : DatHeader) : Option String :=
  if this.magic ≠ first.magic then some "magic"
  else if this.chain ≠ first.chain then some "chain"
  else if this.net ≠ first.net then some "net"
  else if this.recordSize ≠ first.recordSize then some "recordSize"
  else none

/-- `checkInputHeader`, against the first input's header and the range before this one. -/
def checkInputHeader {ρ : Type} (file : DatFile ρ) (before : Option (DatHeader × Nat)) :
    Except ConcatError Unit :=
  if file.header.recordCount = 0 ∧ file.body ≠ [] then .error (.crashed file.path)
  else
    match before with
    | none => .ok ()
    | some (first, prevLastHeight) =>
        match mixedField first file.header with
        | some field => .error (.mixed file.path field)
        | none =>
            if file.header.firstHeight ≠ prevLastHeight + 1 then
              .error (.gap file.path file.header.firstHeight (prevLastHeight + 1))
            else .ok ()

/-- The loop over the inputs, appending to the file written so far. -/
def concatInto {ρ : Type} (output : DatFile ρ) (prevLastHeight : Nat) :
    List (DatFile ρ) → Except ConcatError (DatFile ρ)
  | [] => .ok output
  | file :: rest =>
      match checkInputHeader file (some (output.header, prevLastHeight)) with
      | .error error => .error error
      | .ok () =>
          concatInto
            { output with
              header :=
                { output.header with
                  lastHeight := max output.header.lastHeight file.header.lastHeight
                  recordCount := output.header.recordCount + file.header.recordCount }
              body := output.body ++ file.body }
            file.header.lastHeight rest

/-- `concatFilesWithHeader`: the first header with the counts summed and the last height. -/
def concatFilesWithHeader {ρ : Type} (outputPath : String) (inputs : List (DatFile ρ)) :
    Except ConcatError (DatFile ρ) :=
  match inputs with
  | [] => .error .noInputs
  | file :: rest =>
      match checkInputHeader file none with
      | .error error => .error error
      | .ok () => concatInto { file with path := outputPath } file.header.lastHeight rest

end UtxoTracker.Bulk

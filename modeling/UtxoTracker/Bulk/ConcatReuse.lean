import UtxoTracker.Bulk.DatFiles
import UtxoTracker.Bulk.Writers
/-!
# Reusing the concatenated streams

`concatOrReuse` of `phases.js` with the header check of `resume_manifest.js`. The names in the
directory of the parsed files are given; what it lists does not change during the merge.
-/

namespace UtxoTracker.DatFiles

open ByteString Throwing ValueCodec
open Xdmp (ChainName NetworkName CHAIN_CODES NETWORK_CODES asciiText readUInt32LE)

variable (faults : Faults)

/-! ### One file -/

def KNOWN_MAGICS : List String := [MAGIC_OUTPUTS, MAGIC_SPENDS, MAGIC_META].map asciiText

structure DatHeader where
  magic : String
  chain : UInt8
  net : UInt8
  version : Nat
  firstHeight : Nat
  lastHeight : Nat
  recordCount : Nat
  recordSize : Nat
  fileSize : Nat
  deriving DecidableEq

def DatHeader.ofHeader (buf : List UInt8) (fileSize : Nat) : DatHeader :=
  { magic := asciiText (subarray buf 0 8)
    chain := buf.getD 8 0
    net := buf.getD 9 0
    version := ofLE (subarray buf 10 2)
    firstHeight := firstHeightOf buf
    lastHeight := lastHeightOf buf
    recordCount := recordCountOf buf
    recordSize := readUInt32LE buf 28
    fileSize }

def parseDatHeader (filePath : String) : Program DatHeader := do
  openSync faults filePath
  let short (read : Nat) := filePath ++ ": short header read (" ++ toString read ++ " of " ++
    toString HEADER_SIZE ++ " bytes)"
  let buf ← readHeaderFrom faults filePath short HEADER_SIZE []
  let size ← statSync faults filePath
  pure (DatHeader.ofHeader buf size)

def ChainName.ofText (text : String) : Option ChainName :=
  [ChainName.bitcoin, .litecoin, .dogecoin].find? fun chain => chain.text = text

def NetworkName.ofText (text : String) : Option NetworkName :=
  [NetworkName.mainnet, .testnet, .regtest].find? fun network => network.text = text

/-- The codes of a network's two names, which the first dash divides. -/
def networkToCodes (network : String) : Except ConcatError (UInt8 × UInt8) :=
  let chainName := String.ofList (network.toList.takeWhile (· ≠ '-'))
  let netName := String.ofList ((network.toList.dropWhile (· ≠ '-')).drop 1)
  match ChainName.ofText chainName with
  | none => .error (.message ("Unknown chain in network '" ++ network ++ "'"))
  | some chain =>
      match NetworkName.ofText netName with
      | none => .error (.message ("Unknown net in network '" ++ network ++ "'"))
      | some net => .ok (CHAIN_CODES chain, NETWORK_CODES net)

/-- What a run's files must say. Without `--to` only the start is checked. -/
structure Identity where
  chain : UInt8
  net : UInt8
  fromHeight : Nat
  toHeight : Option Nat

/-- The size of the body; `none` for a file smaller than its header. -/
def bodySize (header : DatHeader) : Option Nat :=
  if header.fileSize < HEADER_SIZE then none else some (header.fileSize - HEADER_SIZE)

def checkArtifact (filePath : String) (header : DatHeader) (expected : Identity) :
    Except ConcatError DatHeader :=
  let refuse (reason : String) : Except ConcatError DatHeader :=
    .error (.message (filePath ++ ": " ++ reason))
  if header.magic ∉ KNOWN_MAGICS then refuse ("unknown magic '" ++ header.magic ++ "'")
  else if header.chain ≠ expected.chain ∨ header.net ≠ expected.net then
    refuse ("header chain/net " ++ toString header.chain.toNat ++ "/" ++
      toString header.net.toNat ++ " != requested " ++ toString expected.chain.toNat ++ "/" ++
      toString expected.net.toNat)
  else if header.firstHeight ≠ expected.fromHeight then
    refuse ("header firstHeight " ++ toString header.firstHeight ++ " != requested --from " ++
      toString expected.fromHeight)
  else if ∃ height ∈ expected.toHeight, header.lastHeight ≠ height then
    refuse ("header lastHeight " ++ toString header.lastHeight ++ " != requested --to " ++
      toString (expected.toHeight.getD 0))
  else if header.recordSize = 0 then
    refuse "header recordSize 0 (legacy/foreign artifact)"
  else if bodySize header ≠ some (header.recordCount * header.recordSize) then
    refuse ("body " ++ toString ((header.fileSize : Int) - HEADER_SIZE) ++ "B != recordCount " ++
      toString header.recordCount ++ " x recordSize " ++ toString header.recordSize)
  else .ok header

def validateConcatArtifact (filePath : String) (expected : Identity) :
    Program (Except ConcatError DatHeader) := do
  let header ← attempt (parseDatHeader faults filePath)
  pure (header.bind fun header => checkArtifact filePath header expected)

/-! ### The three files -/

structure RunArgs where
  network : String
  fromHeight : Nat
  toHeight : Option Nat

/-- The directories of a run under `--out`. -/
structure WorkDirs where
  out : String

def WorkDirs.parsed (dirs : WorkDirs) : String := dirs.out ++ "/parsed"
def WorkDirs.merge (dirs : WorkDirs) : String := dirs.out ++ "/merge"
def WorkDirs.allOutputs (dirs : WorkDirs) : String := dirs.merge ++ "/all-outputs.dat"
def WorkDirs.allSpends (dirs : WorkDirs) : String := dirs.merge ++ "/all-spends.dat"
def WorkDirs.allMeta (dirs : WorkDirs) : String := dirs.merge ++ "/all-meta.dat"

/-- A call that throws counts as no file. -/
def existsSync (path : String) : Program Bool := fun s =>
  .ok (!faults.fails s.calls && (s.dir path).isSome) { s with calls := s.calls + 1 }

def allExist : List String → Program Bool
  | [] => pure true
  | path :: rest => do
      let here ← existsSync faults path
      if here then allExist rest else pure false

def sameRange (h outH : DatHeader) : Bool :=
  decide (h.firstHeight = outH.firstHeight) && decide (h.lastHeight = outH.lastHeight)

/-- Whether all three files were valid and have one range. -/
def agree : (outputs spends blocks : Except ConcatError DatHeader) → Bool
  | .ok outH, .ok spdH, .ok metaH => sameRange spdH outH && sameRange metaH outH
  | _, _, _ => false

def concatReusableForRun (args : RunArgs) (dirs : WorkDirs) : Program Bool := do
  let concatReusable ← allExist faults [dirs.allOutputs, dirs.allSpends, dirs.allMeta]
  if concatReusable then do
    let codes ← lift (networkToCodes args.network)
    let expected : Identity := ⟨codes.1, codes.2, args.fromHeight, args.toHeight⟩
    let outputs ← validateConcatArtifact faults dirs.allOutputs expected
    let spends ← validateConcatArtifact faults dirs.allSpends expected
    let blocks ← validateConcatArtifact faults dirs.allMeta expected
    pure (agree outputs spends blocks)
  else pure false

def findFiles (names : List String) (dir start stop : String) : List String :=
  let found := names.filter fun f =>
    start.toList.isPrefixOf f.toList && stop.toList.isSuffixOf f.toList
  (found.mergeSort fun f g => decide (f ≤ g)).map fun f => dir ++ "/" ++ f

/-- Whether the files on disk were reused. Here every write takes all its bytes or throws. -/
def concatOrReuse (args : RunArgs) (dirs : WorkDirs) (names : List String) : Program Bool := do
  let concatReusable ← concatReusableForRun faults args dirs
  if concatReusable then do
    let _ ← statSync faults dirs.allOutputs
    let _ ← statSync faults dirs.allSpends
    pure true
  else do
    let _ ← concatFilesWithHeader faults wholeWrites (findFiles names dirs.parsed "outputs-" ".dat")
      dirs.allOutputs HEADER_SIZE
    let _ ← concatFilesWithHeader faults wholeWrites (findFiles names dirs.parsed "spends-" ".dat")
      dirs.allSpends HEADER_SIZE
    let _ ← concatFilesWithHeader faults wholeWrites (findFiles names dirs.parsed "meta-" ".dat")
      dirs.allMeta HEADER_SIZE
    pure false

end UtxoTracker.DatFiles

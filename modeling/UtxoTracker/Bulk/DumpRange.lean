import UtxoTracker.Bulk.Dump
/-!
# The range of a dump

Where the orchestrator lets a dump of the node's chain end. The bulk pipeline seeds no recovery
records, so a block it seeds must lie outside the undo window. `undoBlocks` is what
`resolveUndoBlocks` gives for the network, here and in the tracker.
-/

namespace UtxoTracker.Bulk

/-- The options of the orchestrator that decide the range. -/
structure RangeArgs where
  start : Int
  /-- `--to`; `none` when the dump ends below the node's tip. -/
  last : Option Int
  tipSafety : Int
  allowUndoWindow : Bool
  chunkSize : Int
  deriving DecidableEq, Repr

def effectiveTipSafety (tipSafety : Int) (last : Option Int) (undoBlocks : Nat) : Int :=
  if last.isSome then tipSafety else max tipSafety undoBlocks

def clampTipSafety (args : RangeArgs) (undoBlocks : Nat) : RangeArgs :=
  { args with tipSafety := effectiveTipSafety args.tipSafety args.last undoBlocks }

/-- The options of `dump.js`. -/
structure DumpRangeArgs where
  start : Int
  last : Option Int
  tipSafety : Int
  tipSafetyExplicit : Bool
  allowUndoWindow : Bool
  chunkSize : Int
  deriving DecidableEq, Repr

/-- `DEFAULT_TIP_SAFETY` -/
def defaultTipSafety : Int := 10

/-- The command line that `phaseDump` gives the child. -/
def phaseDumpArgs (args : RangeArgs) : DumpRangeArgs :=
  match args.last with
  | some last =>
      { start := args.start
        last := some last
        tipSafety := defaultTipSafety
        tipSafetyExplicit := false
        allowUndoWindow := args.allowUndoWindow
        chunkSize := args.chunkSize }
  | none =>
      { start := args.start
        last := none
        tipSafety := args.tipSafety
        tipSafetyExplicit := true
        allowUndoWindow := false
        chunkSize := args.chunkSize }

/-- The numbers that `validateArgs` checks. -/
def validateRange (args : DumpRangeArgs) : Except String Unit :=
  if args.start < 0 then .error "--from must be a non-negative integer"
  else if args.last.isSome ∧ args.tipSafetyExplicit then
    .error "--to and --tip-safety are mutually exclusive"
  else if args.last.any (· < args.start) then .error "--to must be a finite integer >= --from"
  else if args.chunkSize ≤ 0 then .error "--chunk-size must be a positive integer"
  else if args.tipSafety < 0 then .error "--tip-safety must be a non-negative integer"
  else .ok ()

/-- `safeEnd` of `undoWindowBounds`. -/
def undoWindowBounds (chainTipAtDump : Int) (undoBlocks : Nat) : Int := chainTipAtDump - undoBlocks

def assertExplicitToOutsideUndoWindow (dumpEnd chainTipAtDump : Int) (undoBlocks : Nat)
    (allowUndoWindow : Bool) : Except String Int :=
  let safeEnd := undoWindowBounds chainTipAtDump undoBlocks
  if dumpEnd ≤ safeEnd then .ok safeEnd
  else if !allowUndoWindow then
    .error (s!"--to {dumpEnd} lands inside the live undo window (tip {chainTipAtDump} - " ++
      s!"undo-blocks {undoBlocks} = {safeEnd}); bulk-sync seeds no K/M reorg-recovery " ++
      "indices there, so a reorg into that range leaves phantom or missing UTXOs until " ++
      s!"a full re-index. Lower --to to {safeEnd} or pass --allow-undo-window " ++
      "to override.")
  else .ok safeEnd

def resolveDumpEnd (args : DumpRangeArgs) (chainTipAtDump : Int) (undoBlocks : Nat) :
    Except String Int :=
  match args.last with
  | some dumpEnd =>
      if chainTipAtDump < dumpEnd then
        .error s!"--to {dumpEnd} is beyond current tip {chainTipAtDump}"
      else do
        let _ ← assertExplicitToOutsideUndoWindow dumpEnd chainTipAtDump undoBlocks
          args.allowUndoWindow
        .ok dumpEnd
  | none =>
      let dumpEnd := chainTipAtDump - args.tipSafety
      if dumpEnd < args.start then
        .error (s!"computed dump end (tip={chainTipAtDump} - safety={args.tipSafety}) " ++
          s!"is before --from={args.start}")
      else .ok dumpEnd

/-- The first and last height that a run dumps. -/
def dumpRange (args : RangeArgs) (chainTipAtDump : Int) (undoBlocks : Nat) :
    Except String (Int × Int) := do
  let dumpArgs := phaseDumpArgs (clampTipSafety args undoBlocks)
  validateRange dumpArgs
  let dumpEnd ← resolveDumpEnd dumpArgs chainTipAtDump undoBlocks
  .ok (dumpArgs.start, dumpEnd)

end UtxoTracker.Bulk

import UtxoTracker.Bulk.MergeDir
import UtxoTracker.Bulk.WorkDir
/-!
# Runs resumed on one work directory

The runs that `api.js` spawns one after the other on a work directory and a store path, each of them
killed at any point or finished, with the flags of `resumeArgsForWorkDir`. The node keeps its chain.
-/

namespace UtxoTracker.Bulk

/-- The streams of a work directory, as `findFiles` lists them. -/
def WorkDir.found (w : WorkDir) : ParsedFiles :=
  ⟨findFiles w.outputs, findFiles w.spends, findFiles w.blocks⟩

/-- `resumeArgsForWorkDir`: whether `--skip-parse` is given. Every file here has a current magic. -/
def WorkDir.resumeSkipsParse (w : WorkDir) : Bool :=
  !(w.outputs.isEmpty && w.spends.isEmpty && w.blocks.isEmpty)

structure ResumedRun where
  run : BulkRun
  merge : MergeState
  db : Db
  /-- The last run that was started has reported success. -/
  succeeded : Bool

/-- A run is over; the workers that outlive it are orphans. -/
def BulkRun.over (s : BulkRun) (survivors : List Worker) : BulkRun :=
  { s with phase := .stopped, workers := survivors.map Worker.orphan }

inductive ResumeStep (args : OrchestratorArgs) (chain : List Block) :
    ResumedRun → ResumedRun → Prop where
  | started {s : ResumedRun} (hphase : s.run.phase = .stopped) :
      ResumeStep args chain s
        { s with
          run := { s.run with phase := firstPhase s.run.dir false s.run.dir.resumeSkipsParse }
          merge := { s.merge with stage := .concat }
          succeeded := false }
  /-- A chunk is dumped or parsed, or an orphan of an earlier run goes on. -/
  | worked {s : ResumedRun} {run : BulkRun} (hstep : BulkStep args.network chain s.run run)
      (hgoes : run.phase = .stopped ↔ s.run.phase = .stopped) :
      ResumeStep args chain s { s with run }
  | merged {s : ResumedRun} {xdmpFiles : List Dump} {merge : MergeState}
      (hphase : s.run.phase = .merging xdmpFiles)
      (hstep : MergeStep args s.run.dir.found s.merge merge) :
      ResumeStep args chain s { s with merge }
  | loaded {s : ResumedRun} {xdmpFiles : List Dump} {keys : DerivedKeys} {db : Db}
      {survivors : List Worker} (hphase : s.run.phase = .merging xdmpFiles)
      (hstage : s.merge.stage = .load keys) (hload : loadKeys args.batchSize keys s.db = .ok db)
      (hsurvivors : survivors ⊆ s.run.workers) :
      ResumeStep args chain s { s with run := s.run.over survivors, db, succeeded := true }
  /-- Killed or failed outside of the merge. -/
  | killed {s : ResumedRun} {survivors : List Worker} (hsurvivors : survivors ⊆ s.run.workers) :
      ResumeStep args chain s { s with run := s.run.over survivors }
  | killedMerge {s : ResumedRun} {xdmpFiles : List Dump} {dir : MergeDir} {survivors : List Worker}
      (hphase : s.run.phase = .merging xdmpFiles) (hcut : MergeCut args s.merge dir)
      (hsurvivors : survivors ⊆ s.run.workers) :
      ResumeStep args chain s
        { s with run := s.run.over survivors, merge := { s.merge with dir } }
  /-- Killed between two batches of the load, the last one included. -/
  | killedLoad {s : ResumedRun} {xdmpFiles : List Dump} {keys : DerivedKeys}
      {written rest : List (List Row)} {survivors : List Worker}
      (hphase : s.run.phase = .merging xdmpFiles) (hstage : s.merge.stage = .load keys)
      (hfresh : holdsNothingButCurrentStamp s.db = true)
      (hbatches : written ++ rest = loadBatches args.batchSize keys)
      (hsurvivors : survivors ⊆ s.run.workers) :
      ResumeStep args chain s
        { s with run := s.run.over survivors, db := written.foldl putBatch s.db }
  /-- The operator removes what an unfinished load left. -/
  | storeRemoved {s : ResumedRun} (hphase : s.run.phase = .stopped) :
      ResumeStep args chain s { s with db := ∅, succeeded := false }

def ResumedRun.Fresh (s : ResumedRun) : Prop :=
  s.run.Fresh ∧ s.merge = ⟨.empty, .concat⟩ ∧ s.succeeded = false

/-- A merge lists the parsed files. -/
def Lists (s s' : ResumedRun) : Prop :=
  s.merge.stage = .concat ∧ ∃ found, s'.merge.stage = .concatenating found .outputs

/-- A step of runs whose merges list whole directories. -/
def WholeStep (args : OrchestratorArgs) (chain : List Block) (s s' : ResumedRun) : Prop :=
  ResumeStep args chain s s' ∧ (Lists s s' → s.run.dir.Whole)

end UtxoTracker.Bulk

import UtxoTracker.Bulk.Load
import UtxoTracker.Tracker.System
/-!
# Starting on a bulk-loaded store

The tracker's first start after the bulk pipeline ran from genesis.
-/

namespace UtxoTracker

open Bulk Tracker

/-- A tracker started on the store that the bulk pipeline built of a chain. -/
def FromSeed (s : Sys) : Prop :=
  ∃ (dumps : List Dump) (opts : BulkOptions) (db db' : Db) (undoBlocks : Nat),
    ValidChain s.chain ∧ s.chain ≠ [] ∧ CutInto s.chain dumps ∧
      bulkSync opts dumps db = .ok db' ∧ start db' undoBlocks = .ok s.tracker ∧
      s.phase = .idle ∧ s.staged = [] ∧
      s.provenance = Provenance.bulk s.chain.length opts.txIndex ∧ s.wrote = fun k => db'[k]?

/-- A tracker started on an empty path or after a bulk load. -/
def FromStore (s : Sys) : Prop := FromEmpty s ∨ FromSeed s

end UtxoTracker

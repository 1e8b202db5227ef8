import UtxoTracker.Bulk.Seeded
/-!
# The life of a store path

A path that holds no store is opened, stamped, bulk-loaded, indexed, closed and opened again, in any
order. A tracker may be stopped or killed between any two of its durable writes and a load between
any two of its batches; while one of them has the store no other process can open it.

Beside the database the states carry what the code does not read: the chain a store stands for, and
whether a load of it was ever cut off.
-/

namespace UtxoTracker

open Bulk Tracker

/-- The keys that the pipeline derived of a chain, ready to load. -/
structure SeedLoad where
  chain : Chain
  dumps : List Dump
  opts : BulkOptions
  keys : DerivedKeys
  valid : ValidChain chain
  nonempty : chain ≠ []
  cut : CutInto chain dumps
  merged : phaseMerge opts (dumps.map (parseOutputs opts.network))
    (dumps.map (parseSpends opts.network)) (dumps.map (parseMeta opts.network)) = .ok keys

/-- A store nobody has open. -/
structure Stored where
  db : Db
  chain : Chain
  provenance : Provenance
  wrote : Key → Option Value
  /-- Some load wrote a batch and not its last one. -/
  interrupted : Bool

namespace Stored

/-- The path before its first open. -/
def fresh : Stored := ⟨∅, [], .live, fun _ => none, false⟩

/-- What a tracker leaves, stopped or killed. -/
def ofSys (s : Sys) (interrupted : Bool) : Stored :=
  ⟨s.db, s.chain, s.provenance, s.wrote, interrupted⟩

/-- What a load leaves after its last batch. -/
def ofLoad (load : SeedLoad) (db : Db) (interrupted : Bool) : Stored :=
  ⟨db, load.chain, .bulk load.chain.length load.opts.txIndex, fun k => db[k]?, interrupted⟩

/-- The loop as `start` enters it. -/
def enter (st : Stored) (t : Tracker) : Sys :=
  { tracker := t
    phase := .idle
    chain := st.chain
    staged := []
    provenance := st.provenance
    wrote := st.wrote }

end Stored

/-- Who has the store. -/
inductive StorePath where
  | closed (st : Stored)
  | running (s : Sys) (interrupted : Bool)
  /-- `loadKeys`, with the batches it wrote over `st` and those still to come. -/
  | loading (load : SeedLoad) (st : Stored) (written rest : List (List Row))

inductive StorePath.Step : StorePath → StorePath → Prop where
  /-- `isDbEmpty` -/
  | probe {st : Stored} {answer : LayoutAnswer} {db : Db}
      (hopen : ensureLayoutVersion st.db false = .ok (answer, db)) :
      Step (.closed st) (.closed { st with db := db })
  | refused {st : Stored} {stamp : Bool} {refusal : LayoutRefusal}
      (hopen : ensureLayoutVersion st.db stamp = .error refusal) : Step (.closed st) (.closed st)
  | start {st : Stored} {undoBlocks : Nat} {t : Tracker}
      (hstart : Tracker.start st.db undoBlocks = .ok t) :
      Step (.closed st) (.running (st.enter t) st.interrupted)
  | loop {s s' : Sys} {interrupted : Bool} (hstep : UtxoTracker.Step s s') :
      Step (.running s interrupted) (.running s' interrupted)
  /-- Stopped or killed. -/
  | stop {s : Sys} {interrupted : Bool} :
      Step (.running s interrupted) (.closed (.ofSys s interrupted))
  | load {st : Stored} (load : SeedLoad) (hfresh : holdsNothingButCurrentStamp st.db = true) :
      Step (.closed st) (.loading load st [] (loadBatches load.opts.batchSize load.keys))
  | loadRefused {st : Stored} (hheld : holdsNothingButCurrentStamp st.db = false) :
      Step (.closed st) (.closed st)
  | batch {load : SeedLoad} {st : Stored} {written rest : List (List Row)} {rows : List Row} :
      Step (.loading load st written (rows :: rest)) (.loading load st (written ++ [rows]) rest)
  /-- A kill, or a throw of the loader, before the last batch. -/
  | killed {load : SeedLoad} {st : Stored} {written rest : List (List Row)} {rows : List Row} :
      Step (.loading load st written (rows :: rest))
        (.closed { st with
          db := written.foldl putBatch st.db
          interrupted := st.interrupted || !written.isEmpty })
  | loaded {load : SeedLoad} {st : Stored} {written : List (List Row)} :
      Step (.loading load st written [])
        (.closed (.ofLoad load (written.foldl putBatch st.db) st.interrupted))

/-! ### What the gate promises -/

/-- The tip pointer of a store is on disk and stands on the chain's tip. -/
def TipCommitted (db : Db) (chain : Chain) : Prop :=
  db[Key.lastBlockHeight]? = some (.hexText (chain.length - 1)) ∧
    ∃ hash, db[Key.lastBlockHash]? = some (.hashText hash) ∧ ∀ b ∈ chain.head?, b.hash = hash

/-- The pipeline built the store of a chain. -/
def SeededWith (chain : Chain) (db : Db) : Prop :=
  ∃ (dumps : List Dump) (opts : BulkOptions) (before : Db), ValidChain chain ∧ chain ≠ [] ∧
    CutInto chain dumps ∧ bulkSync opts dumps before = .ok db

/-- A tracker left the store, with this chain committed. -/
def IndexedTo (chain : Chain) (db : Db) : Prop :=
  ∃ s, Transition.Reachable FromStore UtxoTracker.Step s ∧ s.db = db ∧ s.chain = chain

def OnlyStamp (db : Db) : Prop := ∀ k : Key, db[k]? ≠ none → k = .layoutVersion

/-- Nothing is missing of the chain that the tip pointer names. -/
def CompleteStore (db : Db) : Prop :=
  ∃ chain, TipCommitted db chain ∧ (SeededWith chain db ∨ IndexedTo chain db)

/-- The gate accepts a complete store or one with nothing in it, and refuses an interrupted load. -/
def GateSound (db : Db) (interrupted : Bool) : Prop :=
  (∀ stamp answer db', ensureLayoutVersion db stamp = .ok (answer, db') →
    OnlyStamp db ∨ CompleteStore db) ∧
  (interrupted = true → ∀ stamp, ∃ refusal, ensureLayoutVersion db stamp = .error refusal)

/-- What the next open would meet. The store of a running load cannot be opened. -/
def StorePath.GateSound : StorePath → Prop
  | .closed st => UtxoTracker.GateSound st.db st.interrupted
  | .running s interrupted => UtxoTracker.GateSound s.db interrupted
  | .loading .. => True

/-! ### What breaks it -/

/-- The loop drops its open batch for a reorg while aged-out blocks wait for their cleanup. -/
def DropsQueue (s s' : Sys) : Prop :=
  s.phase = .idle ∧ s.tracker.pendingKMCleanup ≠ [] ∧
    ((∃ w, s'.phase = .walking .mismatch w) ∨
      s'.phase = .recovering ∧ s.tracker.blocksQuantity ≠ 0)

/-- The steps that leave a store the gate cannot tell from a complete one: a load over a stamped
store cut off between two batches, and a queue of aged-out blocks stored before the first flush. -/
inductive StorePath.Breaks : StorePath → StorePath → Prop where
  | partialLoad {load : SeedLoad} {st st' : Stored} {written rest : List (List Row)}
      {rows : List Row} (hstamped : st.db[Key.layoutVersion]? ≠ none) (hwritten : written ≠ []) :
      Breaks (.loading load st written (rows :: rest)) (.closed st')
  | storedQueue {s s' : Sys} {interrupted : Bool}
      (htip : s.db[Key.lastBlockHash]? = none) (hdrops : DropsQueue s s') :
      Breaks (.running s interrupted) (.running s' interrupted)

end UtxoTracker

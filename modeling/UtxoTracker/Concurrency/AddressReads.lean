import UtxoTracker.Concurrency.StoreCommitLock
import UtxoTracker.Tracker.AddressQueries
import UtxoTracker.Tracker.Window
/-!
# Address reads among the store's writers

The address reads run under the reader's side of the store-commit lock. Under the writer's side run
the flush with its mempool cleanup, the commits of the mempool prune and of its batches, the rollback
and the pointer repair. The aged-block cleanup, the `P` and `R` records and all staging take no lock.
-/

namespace UtxoTracker

open Resumption

/-- A call of one of the three reads. -/
inductive AddressRead where
  | balanceInfo (script : Hash)
  | utxosAddress (script : Hash) (scriptPubKeyHex : String) (limit : Option Nat)
      (after : Option String)
  | firstSeenAt (script : Hash)
  deriving DecidableEq, Repr

/-- What a call answers. -/
inductive AddressAnswer where
  | balanceInfo (answer : Except QueryError BalanceInfo)
  | utxosAddress (answer : Except QueryError UtxosAnswer)
  | firstSeenAt (answer : FirstSeenAnswer)

/-- The section of a read. -/
def AddressRead.program (config : AddressConfig) : AddressRead → Read AddressAnswer
  | balanceInfo script => do return .balanceInfo (← readBalanceInfo config script)
  | utxosAddress script scriptPubKeyHex limit after => do
      return .utxosAddress (← readUtxosAddress config script scriptPubKeyHex limit after)
  | firstSeenAt script => do return .firstSeenAt (← readFirstSeenAt script)

/-- A commit of a writer's section: `commitWithMempoolCleanup` makes one of each, every other section
makes one. -/
inductive SectionWrite : Stores → Stores → Prop where
  | confirmed {stores : Stores} {σ : LevelUpStore}
      (hcommit : stores.confirmed.endTransaction true = .ok σ) :
      SectionWrite stores { stores with confirmed := σ }
  | mempool {stores : Stores} {σ : LevelUpStore}
      (hcommit : stores.mempool.endTransaction true = .ok σ) :
      SectionWrite stores { stores with mempool := σ }

/-- What happens to the stores outside every section. -/
inductive OutsideWrite : Stores → Stores → Prop where
  /-- Opening a batch, staging into it, looking up for it and discarding it. -/
  | stage {stores stores' : Stores} (hconfirmed : stores'.confirmed.db = stores.confirmed.db)
      (hmempool : stores'.mempool.db = stores.mempool.db) : OutsideWrite stores stores'
  | cleanupAgedBlocks {stores : Stores} {t t' : Tracker} (hstore : t.db = stores.confirmed)
      (hcleanup : t.cleanupAgedBlocks = .ok t') :
      OutsideWrite stores { stores with confirmed := t'.db }
  /-- The pending list and the halt marker, which go past any open batch. -/
  | writeThrough {stores : Stores} {key : Key} (op : KeyedStore.WriteOp Value)
      (hkey : key = .pendingCleanup ∨ key = .haltMarker) :
      OutsideWrite stores
        { stores with
          confirmed := { stores.confirmed with
            db := KeyedStore.applyOp stores.confirmed.db key op } }

/-- The tracker while calls of it run. -/
structure ReadsState (τ : Type*) where
  locks : LockState τ
  view : View
  /-- What each read has left to do. -/
  left : τ → Read AddressAnswer

variable {τ : Type*} [DecidableEq τ]

/-- One step of one call, or of the rest of the tracker. -/
inductive ReadsStep : ReadsState τ → ReadsState τ → Prop where
  /-- A call enters, waits or leaves. A read returns only when it has its answer. -/
  | lock {s : ReadsState τ} {locks : LockState τ} (hstep : LockStep s.locks locks)
      (hanswered : ∀ i, s.locks.stage i = .reading → locks.stage i = .finished .returned →
        ∃ answer, s.left i = .done answer) :
      ReadsStep s { s with locks }
  /-- A read looks at the stores and the counters. -/
  | look {s : ReadsState τ} {i : τ} {next : View → Read AddressAnswer}
      (hstage : s.locks.stage i = .reading) (hleft : s.left i = .await next) :
      ReadsStep s { s with left := Function.update s.left i (next s.view) }
  | commit {s : ReadsState τ} {w : τ} {stores : Stores} (hstage : s.locks.stage w = .committing)
      (hwrite : SectionWrite s.view.stores stores) :
      ReadsStep s { s with view := { s.view with stores } }
  | outside {s : ReadsState τ} {stores : Stores} (hwrite : OutsideWrite s.view.stores stores) :
      ReadsStep s { s with view := { s.view with stores } }
  /-- A counter, the readiness latch or the cached node tip moves. -/
  | memory {s : ReadsState τ} (memory : Memory) :
      ReadsStep s { s with view := { s.view with memory } }

/-- No call has started; the tracker is at any state. -/
def ReadsInit (config : AddressConfig) (calls : τ → AddressRead) (s : ReadsState τ) : Prop :=
  s.locks = LockState.initial ∧ s.left = fun i => (calls i).program config

/-- The states of all runs. -/
abbrev ReadsReachable (config : AddressConfig) (calls : τ → AddressRead) (s : ReadsState τ) : Prop :=
  Transition.Reachable (ReadsInit config calls) ReadsStep s

end UtxoTracker

import UtxoTracker.Bulk.Seeded
import UtxoTracker.Tracker.AddressQueries
/-!
# The tokens of an address read

A tracker object has, beside the confirmed store, its mempool store and the epoch that every commit of
the mempool store moves. What a read reports of the moment its rows are of is a token of the two stores.
Once its loop has stopped the object can be started again, by `getbootstrap` on the store it closed and
by `restorebootstrap` on another: both stores are then new objects, the mempool store over nothing,
while the epoch and the reorg count are the constructor's and stay.
-/

namespace UtxoTracker

structure Process where
  sys : Sys
  mempool : Db
  mempoolEpoch : Nat

namespace Process

variable (p : Process)

def stores : Stores :=
  { confirmed := p.sys.tracker.db
    mempool := LevelUpStore.createDatabase p.mempool }

/-- What `readCommittedSnapshot` reports. -/
def snapshot : ReadSnapshot :=
  { committedHeight := p.sys.tracker.db.getLastBlockHeight
    committedHash := p.sys.tracker.db.getLastBlockHash
    reorgCount := p.sys.tracker.reorgCount
    mempoolEpoch := p.mempoolEpoch }

end Process

/-- What a step of a running loop does: its reorg count never falls, and a walk under way or a loop that
stopped does not come back idle. -/
structure InProcess (s s' : Sys) : Prop where
  count : s.tracker.reorgCount ≤ s'.tracker.reorgCount
  noCrash : (∃ entry w, s.phase = .walking entry w) ∨ s.phase = .stopped → s'.phase ≠ .idle

/-- One step of a tracker whose loop runs. A flush that cleans the mempool store up is a step of each
store. -/
inductive RunningStep : Process → Process → Prop where
  | loop {p : Process} {sys : Sys} (hstep : Step p.sys sys) (hprocess : InProcess p.sys sys) :
      RunningStep p { p with sys }
  | mempoolCommit {p : Process} (mempool : Db) :
      RunningStep p { p with mempool, mempoolEpoch := p.mempoolEpoch + 1 }

/-- The counters of the object's lifetime, which no `start` sets. -/
def Sys.keepCounters (s : Sys) (t : Tracker) : Sys :=
  { s with
    tracker := { s.tracker with
      reorgRollbacksThisProcess := t.reorgRollbacksThisProcess
      reorgCount := t.reorgCount
      lastReorgDepth := t.lastReorgDepth } }

/-- What stands at the data path when the object is started again: the store it closed, or an archive
of some tracker's store. -/
def Reopened (p : Process) (store : Sys) : Prop :=
  store = p.sys ∨ Transition.Reachable FromStore Step store

/-- `start` on an object whose loop has stopped. -/
inductive Relaunch : Process → Process → Prop where
  | started {p : Process} {store : Sys} {t : Tracker}
      (hphase : p.sys.phase = .idle ∨ p.sys.phase = .stopped) (hstore : Reopened p store)
      (hrun : Tracker.start store.db p.sys.tracker.undoBlocks = .ok t) :
      Relaunch p
        ⟨Sys.keepCounters { store with tracker := t, phase := .idle, staged := [] } p.sys.tracker, ∅,
          p.mempoolEpoch⟩
  /-- The store carries the halt marker: the loop does not run. -/
  | halted {p : Process} {store : Sys} (hphase : p.sys.phase = .idle ∨ p.sys.phase = .stopped)
      (hstore : Reopened p store) (hmarker : store.phase = .stopped) :
      Relaunch p ⟨store.keepCounters p.sys.tracker, ∅, p.mempoolEpoch⟩

/-- One step of a tracker object. -/
def ProcessStep (p q : Process) : Prop := RunningStep p q ∨ Relaunch p q

/-- A relaunch that no token needs to tell: the mempool store was empty, the store put back is one of
the same blocks, and a loop that failed does not run again. -/
structure Unnoticed (p q : Process) : Prop where
  mempool : p.mempool = ∅
  chain : q.sys.chain = p.sys.chain
  provenance : q.sys.provenance = p.sys.provenance
  failed : p.sys.phase = .stopped → q.sys.phase = .stopped

/-- A step of a tracker object whose relaunches all go unnoticed. -/
def QuietStep (p q : Process) : Prop := RunningStep p q ∨ Relaunch p q ∧ Unnoticed p q

/-- A new object over a store that some tracker left. -/
def Launched (p : Process) : Prop := p.mempool = ∅ ∧ Transition.Reachable FromStore Step p.sys

end UtxoTracker

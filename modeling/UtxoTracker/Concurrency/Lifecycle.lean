import Mathlib.Logic.Function.Basic
import UtxoTracker.Lib.Transition
/-!
# Stop and relaunch

The runs of `start` and the requests that pause the tracker, in one event loop. A run is launched at
boot and after each bootstrap or restore; a request reaches `stopParsing` past the guard of
`beginAdminOperation`. Each stretch between two awaits is one step. A fault that is not an
unrecoverable reorg ends the process, so it has no step.
-/

namespace UtxoTracker

/-- Where one run of `start` stands. -/
inductive RunStage where
  | notLaunched
  /-- Awaits the `createDatabase` of the store it has just made. -/
  | opening
  /-- Its store is open; awaits the layout check, the halt marker and the cursor. -/
  | loading
  /-- In a pass of the sync loop. -/
  | polling
  /-- The loop saw `keepParsing` down; awaits the close of this store. -/
  | closing (store : Nat)
  | returned
  /-- Left by a halt marker or by an unrecoverable reorg. -/
  | halted
  deriving DecidableEq, Repr

/-- Where one `getbootstrap` or `restorebootstrap` request stands. -/
inductive RequestStage where
  | notReceived
  | refused
  /-- In `stopParsing` on a halted tracker; awaits the close of this store. -/
  | closing (store : Nat)
  /-- In the wait loop of `stopParsing`, asleep with this many tries left. -/
  | waiting (triesCount : Nat)
  /-- `stopParsing` rejected. -/
  | rejected
  /-- `stopParsing` resolved: the data directory is read or wiped. -/
  | resolved
  | finished
  deriving DecidableEq, Repr

/-- Between the launch and the first pass. -/
def RunStage.Starting : RunStage → Prop
  | opening | loading => True
  | _ => False

def RunStage.InProgress : RunStage → Prop
  | opening | loading | polling | closing _ => True
  | _ => False

/-- From the guard's rise to its fall. -/
def RequestStage.HoldsGuard : RequestStage → Prop
  | closing _ | waiting _ | resolved => True
  | _ => False

/-- The process. The store that the run `n` makes is numbered `n`. -/
structure Lifecycle (τ : Type*) where
  keepParsing : Bool
  parsingStopped : Bool
  parsingAborted : Bool
  /-- Whether the mempool poller is armed. -/
  mempoolInterval : Bool
  /-- The store that `this.db` is. -/
  db : Nat
  /-- Whether a store object has the data directory open. -/
  isOpen : Nat → Bool
  /-- How many runs have been launched. -/
  launches : Nat
  run : Nat → RunStage
  /-- `guard.busy` -/
  busy : Bool
  request : τ → RequestStage

namespace Lifecycle

variable {τ : Type*} [DecidableEq τ] (s : Lifecycle τ) (n : Nat) (i : τ)

def setRun (stage : RunStage) : Lifecycle τ := { s with run := Function.update s.run n stage }

def setRequest (stage : RequestStage) : Lifecycle τ :=
  { s with request := Function.update s.request i stage }

/-! ### `start` -/

/-- `start`, up to its first await: `this.db` is a new store, not yet open. -/
def launch : Lifecycle τ :=
  { s with db := s.launches, launches := s.launches + 1 }.setRun s.launches .opening

/-- The store is open. -/
def opened : Lifecycle τ :=
  { s with isOpen := Function.update s.isOpen n true }.setRun n .loading

/-- The flags reset, into the first pass. -/
def enterLoop : Lifecycle τ :=
  { s with keepParsing := true, parsingStopped := false, parsingAborted := false }.setRun n .polling

/-- The head of the loop: another pass, or the normal stop. -/
def loopHead : Lifecycle τ :=
  if s.keepParsing then s.setRun n .polling
  else { s with mempoolInterval := false }.setRun n (.closing s.db)

/-- The end of the normal stop. -/
def loopClosed (store : Nat) : Lifecycle τ :=
  { s with isOpen := Function.update s.isOpen store false, parsingStopped := true }.setRun n .returned

def enterHaltedState : Lifecycle τ :=
  { s with parsingAborted := true, parsingStopped := false, mempoolInterval := false }

/-! ### `stopParsing` -/

/-- The head of the wait loop, and what follows the loop. -/
def awaitStopped (triesCount : Nat) : Lifecycle τ :=
  if !s.parsingStopped && 0 < triesCount then s.setRequest i (.waiting triesCount)
  else if triesCount = 0 ∧ !s.parsingStopped then
    { s with keepParsing := true, mempoolInterval := true, busy := false }.setRequest i .rejected
  else s.setRequest i .resolved

def stopParsing : Lifecycle τ :=
  let s := { s with keepParsing := false, mempoolInterval := false }
  if s.parsingAborted && !s.parsingStopped then s.setRequest i (.closing s.db)
  else s.awaitStopped i 10

/-- The end of the stop on a halted tracker. -/
def haltClosed (store : Nat) : Lifecycle τ :=
  { s with
    isOpen := Function.update s.isOpen store false
    parsingStopped := true }.setRequest i .resolved

/-- `beginAdminOperation`, past the guard and the filename check. -/
def beginAdminOperation : Lifecycle τ := { s with busy := true }.stopParsing i

/-- The operation is over, and its guard down. -/
def finishRequest : Lifecycle τ := { s with busy := false }.setRequest i .finished

/-- The process after `launchTracker` at boot, before any request. -/
def boot : Lifecycle τ :=
  launch
    { keepParsing := true
      parsingStopped := false
      parsingAborted := false
      mempoolInterval := false
      db := 0
      isOpen := fun _ => false
      launches := 0
      run := fun _ => .notLaunched
      busy := false
      request := fun _ => .notReceived }

end Lifecycle

/-- What runs up to its next await. -/
inductive LifecycleEvent (τ : Type*) where
  | opened (n : Nat)
  | marked (n : Nat)
  | loaded (n : Nat)
  | passed (n : Nat)
  | aborted (n : Nat)
  | loopClosed (n : Nat)
  | refused (i : τ)
  | stopParsing (i : τ)
  | wake (i : τ)
  | haltClosed (i : τ)
  | haltCloseFailed (i : τ)
  | relaunch (i : τ)
  | givenUp (i : τ)

variable {τ : Type*} [DecidableEq τ]

inductive LifecycleStep : Lifecycle τ → LifecycleEvent τ → Lifecycle τ → Prop where
  /-- LevelDB opens a directory that no other handle has open; otherwise the process ends. -/
  | opened {s : Lifecycle τ} {n : Nat} (hstage : s.run n = .opening)
      (hfree : ∀ store, s.isOpen store = false) : LifecycleStep s (.opened n) (s.opened n)
  /-- `resumeHaltFromMarker` finds a marker. -/
  | marked {s : Lifecycle τ} {n : Nat} (hstage : s.run n = .loading) :
      LifecycleStep s (.marked n) (s.enterHaltedState.setRun n .halted)
  | loaded {s : Lifecycle τ} {n : Nat} (hstage : s.run n = .loading) :
      LifecycleStep s (.loaded n) (s.enterLoop n)
  /-- A pass is over, having armed or cleared the poller or not. -/
  | passed {s : Lifecycle τ} {n : Nat} (hstage : s.run n = .polling) (mempoolInterval : Bool) :
      LifecycleStep s (.passed n) ({ s with mempoolInterval }.loopHead n)
  /-- A pass meets an unrecoverable reorg, and `launchTracker` halts. -/
  | aborted {s : Lifecycle τ} {n : Nat} (hstage : s.run n = .polling) :
      LifecycleStep s (.aborted n) (s.enterHaltedState.setRun n .halted)
  | loopClosed {s : Lifecycle τ} {n store : Nat} (hstage : s.run n = .closing store) :
      LifecycleStep s (.loopClosed n) (s.loopClosed n store)
  /-- A second operation, or a filename that does not validate. -/
  | refused {s : Lifecycle τ} {i : τ} (hstage : s.request i = .notReceived) :
      LifecycleStep s (.refused i) (s.setRequest i .refused)
  | stopParsing {s : Lifecycle τ} {i : τ} (hstage : s.request i = .notReceived)
      (hguard : s.busy = false) : LifecycleStep s (.stopParsing i) (s.beginAdminOperation i)
  /-- A second of the wait is over. -/
  | wake {s : Lifecycle τ} {i : τ} {triesCount : Nat} (hstage : s.request i = .waiting triesCount) :
      LifecycleStep s (.wake i) (s.awaitStopped i (triesCount - 1))
  | haltClosed {s : Lifecycle τ} {i : τ} {store : Nat} (hstage : s.request i = .closing store) :
      LifecycleStep s (.haltClosed i) (s.haltClosed i store)
  | haltCloseFailed {s : Lifecycle τ} {i : τ} {store : Nat} (hstage : s.request i = .closing store) :
      LifecycleStep s (.haltCloseFailed i) ({ s with busy := false }.setRequest i .rejected)
  /-- The archive is made or extracted: the guard falls and `launchTracker` runs. -/
  | relaunch {s : Lifecycle τ} {i : τ} (hstage : s.request i = .resolved) :
      LifecycleStep s (.relaunch i) (s.finishRequest i).launch
  /-- The operation failed in a way that leaves the tracker paused. -/
  | givenUp {s : Lifecycle τ} {i : τ} (hstage : s.request i = .resolved) :
      LifecycleStep s (.givenUp i) (s.finishRequest i)

/-! ### What a stop promises -/

namespace Lifecycle

variable (s : Lifecycle τ)

/-- No run is in progress and the data directory is closed. -/
def Quiet : Prop := (∀ n, ¬ (s.run n).InProgress) ∧ ∀ store, s.isOpen store = false

/-- The run `n` is in its loop, on an open store. -/
def Indexing (n : Nat) : Prop := s.run n = .polling ∧ s.isOpen s.db = true

end Lifecycle

/-- The states of the runs whose steps all meet `allowed`. -/
abbrev LifecycleReachable (allowed : Lifecycle τ → LifecycleEvent τ → Prop) (s : Lifecycle τ) :
    Prop :=
  Transition.Reachable (· = Lifecycle.boot)
    (fun s s' => ∃ event, allowed s event ∧ LifecycleStep s event s') s

/-- Steps that meet `allowed`, none of them an excluded one. -/
abbrev LifecycleRun (allowed : Lifecycle τ → LifecycleEvent τ → Prop)
    (excluded : LifecycleEvent τ → Prop) : Lifecycle τ → Lifecycle τ → Prop :=
  Relation.ReflTransGen fun s s' =>
    ∃ event, allowed s event ∧ ¬ excluded event ∧ LifecycleStep s event s'

def LifecycleEvent.IsLaunch : LifecycleEvent τ → Prop
  | relaunch _ => True
  | _ => False

def LifecycleEvent.IsStop : LifecycleEvent τ → Prop
  | stopParsing _ => True
  | _ => False

/-- In the runs whose steps all meet `allowed`: a stop that resolves leaves no run in progress and
the store closed, and this stays so until the next launch; a stop that rejects leaves a run in its
loop on an open store, which no longer stops, short of another stop, except by halting. -/
structure StopContract (allowed : Lifecycle τ → LifecycleEvent τ → Prop) : Prop where
  resolves : ∀ (s s' s'' : Lifecycle τ) (event : LifecycleEvent τ) (i : τ),
    LifecycleReachable allowed s → allowed s event → LifecycleStep s event s' →
    s.request i ≠ .resolved → s'.request i = .resolved →
    LifecycleRun allowed LifecycleEvent.IsLaunch s' s'' → s''.Quiet
  rejects : ∀ (s s' : Lifecycle τ) (event : LifecycleEvent τ) (i : τ),
    LifecycleReachable allowed s → allowed s event → LifecycleStep s event s' →
    s.request i ≠ .rejected → s'.request i = .rejected →
    ∃ n, s'.Indexing n ∧ ∀ s'', LifecycleRun allowed LifecycleEvent.IsStop s' s'' →
      s''.Indexing n ∨ s''.run n = .halted

/-- A step clear of the four windows. -/
def InOrder (s : Lifecycle τ) : LifecycleEvent τ → Prop
  /- `parsingStopped` is still up from the last stop while a relaunched run has yet to enter its
  loop. -/
  | .stopParsing _ => s.parsingStopped = true → ∀ n, ¬ (s.run n).Starting
  /- The tenth second of a wait falls before a run's loop, or into the loop's own close. -/
  | .wake i => ∀ triesCount, s.request i = .waiting triesCount → triesCount ≤ 1 →
      ∀ n, ¬ (s.run n).Starting ∧ ∀ store, s.run n ≠ .closing store
  /- A run halts while a stop waits for its loop. -/
  | .marked _ | .aborted _ => ∀ i triesCount, s.request i ≠ .waiting triesCount
  | .haltCloseFailed _ => False
  | _ => True

end UtxoTracker

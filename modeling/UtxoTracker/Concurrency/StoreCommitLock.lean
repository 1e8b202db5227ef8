import Mathlib.Data.Finset.Card
import Mathlib.Logic.Function.Basic
import UtxoTracker.Lib.Transition
/-!
# The store-commit lock

`withStoreRead` and `withStoreCommit`: a counter of readers, a writer's flag and one list of waiting
calls, in an event loop. A call runs without interruption up to its next await, so each stretch
between two awaits is one step; the loop picks the next call freely. Calls are named by an arbitrary
type, and what a section does is not this module's business: it ends, returning or throwing.
-/

namespace UtxoTracker

/-- The lock kept on the tracker, shared by all calls. -/
structure StoreLock (τ : Type*) where
  readers : Nat
  writing : Bool
  waiters : List τ

/-- How a section ended. -/
inductive Outcome where
  | returned
  | threw
  deriving DecidableEq, Repr

/-- Where one call stands. A woken call has had its promise resolved and has yet to run. -/
inductive Stage where
  | idle
  /-- `withStoreRead`, waiting while a writer holds the lock. -/
  | parkedRead
  | wokenRead
  | reading
  /-- `withStoreCommit`, waiting while another writer holds the lock. -/
  | parkedWrite
  | wokenWrite
  /-- The writer's flag is ours, and readers are still in. -/
  | draining
  | wokenDrain
  | committing
  | finished (outcome : Outcome)
  deriving DecidableEq, Repr

namespace Stage

/-- The call waits on a promise that nobody has resolved yet. -/
def Parked : Stage → Prop
  | parkedRead | parkedWrite | draining => True
  | _ => False

/-- The call has set the writer's flag and has not cleared it. -/
def Claimed : Stage → Prop
  | draining | wokenDrain | committing => True
  | _ => False

/-- What resolving its promise makes of a call. -/
def wake : Stage → Stage
  | parkedRead => wokenRead
  | parkedWrite => wokenWrite
  | draining => wokenDrain
  | stage => stage

end Stage

structure LockState (τ : Type*) where
  lock : StoreLock τ
  stage : τ → Stage

namespace LockState

variable {τ : Type*} [DecidableEq τ] (s : LockState τ) (i : τ)

/-- No call yet, and the lock as `storeLock` makes it. -/
def initial : LockState τ :=
  { lock := { readers := 0, writing := false, waiters := [] }
    stage := fun _ => .idle }

def setStage (stage : Stage) : LockState τ := { s with stage := Function.update s.stage i stage }

/-- Park a call on the waiters' list. -/
def waitForLockChange (parked : Stage) : LockState τ :=
  { lock := { s.lock with waiters := s.lock.waiters ++ [i] }
    stage := Function.update s.stage i parked }

/-- Take the list and resolve every promise on it. -/
def wakeLockWaiters : LockState τ :=
  { lock := { s.lock with waiters := [] }
    stage := fun j => if j ∈ s.lock.waiters then (s.stage j).wake else s.stage j }

/-- The head of `withStoreRead`: look at the flag, and enter or wait. -/
def enterRead : LockState τ :=
  if s.lock.writing then s.waitForLockChange i .parkedRead
  else { s with lock := { s.lock with readers := s.lock.readers + 1 } }.setStage i .reading

/-- The `finally` of `withStoreRead`. -/
def leaveRead (outcome : Outcome) : LockState τ :=
  let s := { s with lock := { s.lock with readers := s.lock.readers - 1 } }.setStage i
    (.finished outcome)
  if s.lock.readers = 0 then s.wakeLockWaiters else s

/-- The second loop of `withStoreCommit`: wait for the readers to leave. -/
def drain : LockState τ :=
  if 0 < s.lock.readers then s.waitForLockChange i .draining else s.setStage i .committing

/-- The head of `withStoreCommit`: look at the flag, and claim it or wait. -/
def claim : LockState τ :=
  if s.lock.writing then s.waitForLockChange i .parkedWrite
  else { s with lock := { s.lock with writing := true } }.drain i

/-- The `finally` of `withStoreCommit`. -/
def release (outcome : Outcome) : LockState τ :=
  ({ s with lock := { s.lock with writing := false } }.setStage i
    (.finished outcome)).wakeLockWaiters

end LockState

variable {τ : Type*} [DecidableEq τ]

/-- One call runs up to its next await. -/
inductive LockStep : LockState τ → LockState τ → Prop where
  | callRead {s : LockState τ} {i : τ} (hstage : s.stage i = .idle) : LockStep s (s.enterRead i)
  | resumeRead {s : LockState τ} {i : τ} (hstage : s.stage i = .wokenRead) :
      LockStep s (s.enterRead i)
  | endRead {s : LockState τ} {i : τ} (hstage : s.stage i = .reading) (outcome : Outcome) :
      LockStep s (s.leaveRead i outcome)
  | callWrite {s : LockState τ} {i : τ} (hstage : s.stage i = .idle) : LockStep s (s.claim i)
  | resumeWrite {s : LockState τ} {i : τ} (hstage : s.stage i = .wokenWrite) : LockStep s (s.claim i)
  | resumeDrain {s : LockState τ} {i : τ} (hstage : s.stage i = .wokenDrain) : LockStep s (s.drain i)
  | endWrite {s : LockState τ} {i : τ} (hstage : s.stage i = .committing) (outcome : Outcome) :
      LockStep s (s.release i outcome)

/-- The states of all runs of the lock. -/
abbrev LockReachable (s : LockState τ) : Prop :=
  Transition.Reachable (· = LockState.initial) LockStep s

end UtxoTracker

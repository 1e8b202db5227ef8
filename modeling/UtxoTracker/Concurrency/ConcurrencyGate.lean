import UtxoTracker.Concurrency.StoreCommitLock
/-!
# The concurrency gate

`createGateMiddleware`, `createHold` and `trackWork`: a count of the requests in flight, one slot for
each admitted request, and a held handler that keeps its slot until its work is done. A stretch of
code between two awaits is one step, and a held handler is entered in the step of its admission.
Requests and promises are named by arbitrary types.
-/

namespace UtxoTracker.ConcurrencyGate

/-- `req[SLOT]` -/
structure Slot (ω : Type*) where
  released : Bool
  claimed : Bool
  work : List ω

/-- Where a request stands. -/
inductive RequestStage (ω : Type*) where
  | expected
  /-- Refused with 429. -/
  | shed
  /-- A handler that nobody wrapped. -/
  | plain
  /-- A held handler that found no slot. -/
  | passed
  | running
  /-- The held handler's promise has settled, its `finally` has yet to run. -/
  | handled (outcome : Outcome)
  /-- The `finally` awaits the promises it took. -/
  | draining (awaited : List ω)
  | drained

/-- The handler or its drain is running. -/
def RequestStage.Active {ω : Type*} : RequestStage ω → Prop
  | running | handled _ | draining _ => True
  | _ => False

structure Request (ω : Type*) where
  slot : Option (Slot ω)
  stage : RequestStage ω
  finished : Bool
  closed : Bool
  /-- Not in the program: every promise registered on the slot. -/
  tracked : List ω
  /-- Not in the program: how often the slot was given back. -/
  releases : Nat

structure GateState (τ ω : Type*) where
  inFlight : Int
  shed : Nat
  request : τ → Request ω
  settled : ω → Bool

namespace GateState

variable {τ ω : Type*} [DecidableEq τ] (s : GateState τ ω) (i : τ)

/-- No request yet. -/
def initial : GateState τ ω :=
  { inFlight := 0
    shed := 0
    request := fun _ => ⟨none, .expected, false, false, [], 0⟩
    settled := fun _ => false }

def setRequest (r : Request ω) : GateState τ ω :=
  { s with request := Function.update s.request i r }

/-- The closure of `release`: once only. -/
def release : GateState τ ω :=
  match (s.request i).slot with
  | none => s
  | some slot =>
      if slot.released then s
      else { s with inFlight := s.inFlight - 1 }.setRequest i
        { s.request i with
          slot := some { slot with released := true }
          releases := (s.request i).releases + 1 }

def releaseIfUnclaimed : GateState τ ω :=
  match (s.request i).slot with
  | none => s
  | some slot => if slot.claimed then s else s.release i

/-- `next()`: the handler of the route, wrapped or not, up to its first await. -/
def next (held : Bool) (slot : Option (Slot ω)) : GateState τ ω :=
  s.setRequest i
    (if held then
      match slot with
      | none => { s.request i with slot, stage := .passed }
      | some slot =>
          { s.request i with slot := some { slot with claimed := true }, stage := .running }
    else { s.request i with slot, stage := .plain })

/-- The middleware. -/
def concurrencyGate (limit : Nat) (skip held : τ → Bool) : GateState τ ω :=
  if limit = 0 ∨ skip i then s.next i (held i) none
  else if (limit : Int) ≤ s.inFlight then
    { s with shed := s.shed + 1 }.setRequest i { s.request i with stage := .shed }
  else { s with inFlight := s.inFlight + 1 }.next i (held i) (some ⟨false, false, []⟩)

def finish : GateState τ ω :=
  (s.setRequest i { s.request i with finished := true }).releaseIfUnclaimed i

def close : GateState τ ω :=
  (s.setRequest i { s.request i with closed := true }).releaseIfUnclaimed i

def settleHandler (outcome : Outcome) : GateState τ ω :=
  s.setRequest i { s.request i with stage := .handled outcome }

/-- One look of the `finally` at the slot's work: take it and await it, or give the slot back. -/
def drain : GateState τ ω :=
  match (s.request i).slot with
  | none => s
  | some slot =>
      if slot.work = [] then
        (s.setRequest i { s.request i with stage := .drained }).release i
      else s.setRequest i
        { s.request i with slot := some { slot with work := [] }, stage := .draining slot.work }

def trackWork (promise : ω) : GateState τ ω :=
  match (s.request i).slot with
  | none => s
  | some slot => s.setRequest i
      { s.request i with
        slot := some { slot with work := slot.work ++ [promise] }
        tracked := promise :: (s.request i).tracked }

def settleWork [DecidableEq ω] (promise : ω) : GateState τ ω :=
  { s with settled := Function.update s.settled promise true }

end GateState

variable {τ ω : Type*} [DecidableEq τ] [DecidableEq ω]

/-- One turn of the event loop, for a gate with the given limit and exemptions, mounted before routes
of which some are held. -/
inductive GateStep (limit : Nat) (skip held : τ → Bool) : GateState τ ω → GateState τ ω → Prop where
  | arrive {s : GateState τ ω} {i : τ} (hstage : (s.request i).stage = .expected) :
      GateStep limit skip held s (s.concurrencyGate i limit skip held)
  | finish {s : GateState τ ω} {i : τ} (hstage : (s.request i).stage ≠ .expected)
      (honce : (s.request i).finished = false) : GateStep limit skip held s (s.finish i)
  | close {s : GateState τ ω} {i : τ} (hstage : (s.request i).stage ≠ .expected)
      (honce : (s.request i).closed = false) : GateStep limit skip held s (s.close i)
  | settleHandler {s : GateState τ ω} {i : τ} (hstage : (s.request i).stage = .running)
      (outcome : Outcome) : GateStep limit skip held s (s.settleHandler i outcome)
  | drain {s : GateState τ ω} {i : τ} {outcome : Outcome}
      (hstage : (s.request i).stage = .handled outcome) : GateStep limit skip held s (s.drain i)
  | drainAgain {s : GateState τ ω} {i : τ} {awaited : List ω}
      (hstage : (s.request i).stage = .draining awaited)
      (hsettled : ∀ promise ∈ awaited, s.settled promise) :
      GateStep limit skip held s (s.drain i)
  | track {s : GateState τ ω} {i : τ} (hstage : (s.request i).stage.Active) (promise : ω) :
      GateStep limit skip held s (s.trackWork i promise)
  | settleWork {s : GateState τ ω} (promise : ω) :
      GateStep limit skip held s (s.settleWork promise)

/-- The states of all runs of a gate. -/
abbrev GateReachable (limit : Nat) (skip held : τ → Bool) (s : GateState τ ω) : Prop :=
  Transition.Reachable (· = GateState.initial) (GateStep limit skip held) s

end UtxoTracker.ConcurrencyGate

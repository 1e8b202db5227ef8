import UtxoTracker.Concurrency.ConcurrencyGate
/-!
# The gate counts the work it admitted

In every interleaving, the count of requests in flight is the number of slots not given back, no slot
is given back twice, and a held request keeps its slot until its handler and every promise registered
on the slot have settled.
-/

namespace UtxoTracker.ConcurrencyGate

open GateState ConcurrencyGate.RequestStage

variable {τ ω : Type*}

/-! ### One request -/

/-- The request holds a slot. -/
def Request.Occupied (r : Request ω) : Prop := ∃ slot, r.slot = some slot ∧ slot.released = false

/-- What is true of a request at each stage, with the promises settled so far. -/
def Request.Inv (settled : ω → Bool) (r : Request ω) : Prop :=
  match r.stage with
  | .expected | .shed | .passed => r.slot = none ∧ r.releases = 0 ∧ r.tracked = []
  | .plain => r.slot = none ∧ r.releases = 0 ∨
      ∃ slot, r.slot = some slot ∧ slot.claimed = false ∧
        r.releases = if slot.released then 1 else 0
  | .running | .handled _ => ∃ slot, r.slot = some slot ∧ slot.claimed = true ∧
      slot.released = false ∧ r.releases = 0 ∧
        ∀ promise ∈ r.tracked, settled promise ∨ promise ∈ slot.work
  | .draining awaited => ∃ slot, r.slot = some slot ∧ slot.claimed = true ∧
      slot.released = false ∧ r.releases = 0 ∧
        ∀ promise ∈ r.tracked, settled promise ∨ promise ∈ slot.work ∨ promise ∈ awaited
  | .drained => ∃ slot, r.slot = some slot ∧ slot.claimed = true ∧ slot.released = true ∧
      r.releases = 1 ∧ ∀ promise ∈ r.tracked, settled promise

/-- The handler of a held request, or a promise registered on its slot, is still running. -/
def Request.Working (settled : ω → Bool) (r : Request ω) : Prop :=
  ∃ slot, r.slot = some slot ∧ slot.claimed = true ∧
    (r.stage = .running ∨ ∃ promise ∈ r.tracked, settled promise = false)

variable {settled settled' : ω → Bool} {r : Request ω}

theorem Request.Inv.mono (hinv : r.Inv settled)
    (hle : ∀ promise, settled promise = true → settled' promise = true) : r.Inv settled' := by
  unfold Request.Inv at hinv ⊢
  cases hstage : r.stage with
  | expected | shed | passed | plain => rwa [hstage] at hinv
  | running | handled outcome =>
      rw [hstage] at hinv
      obtain ⟨slot, hslot, hclaimed, hreleased, hcount, htracked⟩ := hinv
      exact ⟨slot, hslot, hclaimed, hreleased, hcount, fun promise hmem =>
        (htracked promise hmem).imp_left (hle promise)⟩
  | draining awaited =>
      rw [hstage] at hinv
      obtain ⟨slot, hslot, hclaimed, hreleased, hcount, htracked⟩ := hinv
      exact ⟨slot, hslot, hclaimed, hreleased, hcount, fun promise hmem =>
        (htracked promise hmem).imp_left (hle promise)⟩
  | drained =>
      rw [hstage] at hinv
      obtain ⟨slot, hslot, hclaimed, hreleased, hcount, htracked⟩ := hinv
      exact ⟨slot, hslot, hclaimed, hreleased, hcount, fun promise hmem =>
        hle promise (htracked promise hmem)⟩

/-- A slot is given back at most once. -/
theorem Request.Inv.releases_le (hinv : r.Inv settled) : r.releases ≤ 1 := by
  unfold Request.Inv at hinv
  cases hstage : r.stage <;> rw [hstage] at hinv
  case expected | shed | passed => omega
  case plain =>
    obtain ⟨-, hcount⟩ | ⟨slot, -, -, hcount⟩ := hinv
    · omega
    · rw [hcount]
      split_ifs <;> omega
  case running | handled | draining | drained =>
    obtain ⟨slot, -, -, -, hcount, -⟩ := hinv
    omega

/-- **A claimed slot outlives its handler and its work.** -/
theorem Request.Inv.of_released (hinv : r.Inv settled) {slot : Slot ω} (hslot : r.slot = some slot)
    (hclaimed : slot.claimed = true) (hreleased : slot.released = true) :
    r.stage = .drained ∧ ∀ promise ∈ r.tracked, settled promise = true := by
  unfold Request.Inv at hinv
  cases hstage : r.stage <;> rw [hstage] at hinv
  case expected | shed | passed =>
    rw [hinv.1] at hslot
    cases hslot
  case plain =>
    obtain ⟨hnone, -⟩ | ⟨slot', hslot', hunclaimed, -⟩ := hinv
    · rw [hnone] at hslot
      cases hslot
    · rw [hslot', Option.some.injEq] at hslot
      rw [← hslot, hunclaimed] at hclaimed
      cases hclaimed
  case running | handled | draining =>
    obtain ⟨slot', hslot', -, hheld, -⟩ := hinv
    rw [hslot', Option.some.injEq] at hslot
    rw [← hslot, hheld] at hreleased
    cases hreleased
  case drained =>
    obtain ⟨slot', -, -, -, -, htracked⟩ := hinv
    exact ⟨rfl, htracked⟩

/-- A held request that still works holds its slot. -/
theorem Request.Inv.occupied (hinv : r.Inv settled) (hworking : r.Working settled) :
    r.Occupied := by
  obtain ⟨slot, hslot, hclaimed, hwork⟩ := hworking
  refine ⟨slot, hslot, ?_⟩
  rw [← Bool.not_eq_true]
  intro hreleased
  obtain ⟨hstage, hsettled⟩ := hinv.of_released hslot hclaimed hreleased
  obtain hrunning | ⟨promise, hmem, hunsettled⟩ := hwork
  · rw [hstage] at hrunning
    cases hrunning
  · rw [hsettled promise hmem] at hunsettled
    cases hunsettled

/-! ### The count -/

variable [DecidableEq τ] {s t : GateState τ ω} {i : τ} {limit : Nat}

/-- The gate's invariant. -/
structure GateInv (limit : Nat) (s : GateState τ ω) : Prop where
  counted : ∃ A : Finset τ, (∀ i, i ∈ A ↔ (s.request i).Occupied) ∧ s.inFlight = A.card
  bounded : s.inFlight ≤ limit
  request : ∀ i, (s.request i).Inv s.settled

/-- One request moves, and the count with its slot. -/
structure Moves (s t : GateState τ ω) (i : τ) : Prop where
  request : ∀ j, j ≠ i → t.request j = s.request j
  settled : t.settled = s.settled
  count : (t.inFlight = s.inFlight ∧ ((t.request i).Occupied ↔ (s.request i).Occupied)) ∨
    (t.inFlight = s.inFlight + 1 ∧ (t.request i).Occupied ∧ ¬(s.request i).Occupied) ∨
      (t.inFlight = s.inFlight - 1 ∧ ¬(t.request i).Occupied ∧ (s.request i).Occupied)

theorem GateInv.moves (hinv : GateInv limit s) (hmoves : Moves s t i)
    (hbounded : t.inFlight ≤ limit) (hrequest : (t.request i).Inv s.settled) :
    GateInv limit t := by
  obtain ⟨A, hmem, hcard⟩ := hinv.counted
  refine ⟨?_, hbounded, fun j => ?_⟩
  · obtain ⟨hsame, hiff⟩ | ⟨hmore, hin, hout⟩ | ⟨hless, hout, hin⟩ := hmoves.count
    · refine ⟨A, fun j => ?_, by rw [hsame, hcard]⟩
      by_cases hj : j = i
      · rw [hj, hmem, hiff]
      · rw [hmem, hmoves.request j hj]
    · have hnot : i ∉ A := fun hi => hout ((hmem i).mp hi)
      refine ⟨insert i A, fun j => ?_, by rw [hmore, hcard, Finset.card_insert_of_notMem hnot]; rfl⟩
      rw [Finset.mem_insert]
      by_cases hj : j = i
      · rw [hj]
        exact iff_of_true (.inl rfl) hin
      · rw [hmoves.request j hj, ← hmem]
        exact or_iff_right hj
    · have hi : i ∈ A := (hmem i).mpr hin
      have hpos := Finset.card_pos.mpr ⟨i, hi⟩
      refine ⟨A.erase i, fun j => ?_, by rw [hless, hcard, Finset.card_erase_of_mem hi]; omega⟩
      rw [Finset.mem_erase]
      by_cases hj : j = i
      · rw [hj]
        exact iff_of_false (fun h => h.1 rfl) hout
      · rw [hmoves.request j hj, ← hmem]
        exact and_iff_right hj
  · rw [hmoves.settled]
    by_cases hj : j = i
    · rw [hj]
      exact hrequest
    · rw [hmoves.request j hj]
      exact hinv.request j

/-! ### The steps -/

@[simp] theorem setRequest_request_self (r : Request ω) : (s.setRequest i r).request i = r :=
  Function.update_self ..

theorem setRequest_request_of_ne (r : Request ω) {j : τ} (hne : j ≠ i) :
    (s.setRequest i r).request j = s.request j := Function.update_of_ne hne ..

@[simp] theorem setRequest_inFlight (r : Request ω) : (s.setRequest i r).inFlight = s.inFlight := rfl

@[simp] theorem setRequest_settled (r : Request ω) : (s.setRequest i r).settled = s.settled := rfl

/-- A request that keeps its slot, or its lack of one, moves without the count. -/
theorem moves_setRequest {r : Request ω} (hoccupied : r.Occupied ↔ (s.request i).Occupied) :
    Moves s (s.setRequest i r) i where
  request _ hne := setRequest_request_of_ne r hne
  settled := rfl
  count := .inl ⟨rfl, by rw [setRequest_request_self]; exact hoccupied⟩

theorem occupied_of_slot {r : Request ω} {slot : Slot ω} (hslot : r.slot = some slot) :
    r.Occupied ↔ slot.released = false := by
  constructor
  · rintro ⟨slot', hslot', hheld⟩
    rw [hslot, Option.some.injEq] at hslot'
    rwa [hslot']
  · exact fun hheld => ⟨slot, hslot, hheld⟩

theorem not_occupied_of_none {r : Request ω} (hslot : r.slot = none) : ¬r.Occupied := by
  rintro ⟨slot, hslot', -⟩
  rw [hslot] at hslot'
  cases hslot'

/-- What giving a slot back does. -/
theorem release_eq {slot : Slot ω} (hslot : (s.request i).slot = some slot)
    (hheld : slot.released = false) :
    s.release i = { s with inFlight := s.inFlight - 1 }.setRequest i
      { s.request i with
        slot := some { slot with released := true }, releases := (s.request i).releases + 1 } := by
  simp only [release, hslot, hheld, Bool.false_eq_true, if_false]

theorem GateInv.release {r : Request ω} {slot : Slot ω} (hinv : GateInv limit s)
    (hslot : r.slot = some slot) (hheld : slot.released = false)
    (hoccupied : (s.request i).Occupied)
    (hrequest : ({ r with slot := some { slot with released := true }, releases := r.releases + 1 } :
      Request ω).Inv s.settled) : GateInv limit ((s.setRequest i r).release i) := by
  have hself : ((s.setRequest i r).request i).slot = some slot := by
    rw [setRequest_request_self, hslot]
  rw [release_eq hself hheld, setRequest_request_self]
  refine hinv.moves (i := i) ⟨fun j hne => ?_, rfl, .inr (.inr ⟨rfl, ?_, hoccupied⟩)⟩ ?_ ?_
  · rw [setRequest_request_of_ne _ hne]
    exact setRequest_request_of_ne r hne
  · rw [setRequest_request_self, occupied_of_slot rfl]
    exact Bool.noConfusion
  · have hbounded := hinv.bounded
    rw [setRequest_inFlight]
    dsimp only [setRequest]
    omega
  · rw [setRequest_request_self]
    exact hrequest

/-- A finished or closed response gives back a slot that nobody claimed. -/
theorem GateInv.releaseIfUnclaimed (hinv : GateInv limit s) {r : Request ω}
    (hslot : r.slot = (s.request i).slot) (hstage : r.stage = (s.request i).stage)
    (htracked : r.tracked = (s.request i).tracked)
    (hcount : r.releases = (s.request i).releases) :
    GateInv limit ((s.setRequest i r).releaseIfUnclaimed i) := by
  have hrequest : r.Inv s.settled := by
    have hbefore := hinv.request i
    unfold Request.Inv at hbefore ⊢
    rw [hstage, hslot, htracked, hcount]
    exact hbefore
  have hsame : r.Occupied ↔ (s.request i).Occupied := by
    unfold Request.Occupied
    rw [hslot]
  have hmoved : GateInv limit (s.setRequest i r) :=
    hinv.moves (moves_setRequest hsame) hinv.bounded (by rwa [setRequest_request_self])
  rcases hr : r.slot with _ | slot
  · have hnone : ((s.setRequest i r).request i).slot = none := by rw [setRequest_request_self, hr]
    simp only [GateState.releaseIfUnclaimed, hnone]
    exact hmoved
  have hsome : ((s.setRequest i r).request i).slot = some slot := by
    rw [setRequest_request_self, hr]
  simp only [GateState.releaseIfUnclaimed, hsome]
  by_cases hclaimed : slot.claimed = true
  · rw [if_pos hclaimed]
    exact hmoved
  rw [if_neg hclaimed]
  by_cases hreleased : slot.released = true
  · simp only [GateState.release, hsome, hreleased, if_true]
    exact hmoved
  rw [Bool.not_eq_true] at hclaimed hreleased
  refine hinv.release hr hreleased (hsame.mp ((occupied_of_slot hr).mpr hreleased)) ?_
  unfold Request.Inv at hrequest ⊢
  cases hr' : r.stage <;> rw [hr'] at hrequest
  case expected | shed | passed =>
    rw [hrequest.1] at hr
    cases hr
  case plain =>
    obtain ⟨hnone, -⟩ | ⟨slot', hslot', -, hcount'⟩ := hrequest
    · rw [hnone] at hr
      cases hr
    · rw [hr, Option.some.injEq] at hslot'
      subst hslot'
      rw [hreleased] at hcount'
      exact .inr ⟨_, rfl, hclaimed, by rw [hcount']; rfl⟩
  case running | handled | draining | drained =>
    obtain ⟨slot', hslot', hclaimed', -⟩ := hrequest
    rw [hr, Option.some.injEq] at hslot'
    rw [← hslot', hclaimed] at hclaimed'
    cases hclaimed'

/-- A request that had no slot comes out of the middleware without one, or with a new one. -/
theorem GateInv.concurrencyGate (hinv : GateInv limit s) (skip held : τ → Bool)
    (hstage : (s.request i).stage = .expected) :
    GateInv limit (s.concurrencyGate i limit skip held) := by
  have hfresh : (s.request i).slot = none ∧ (s.request i).releases = 0 ∧
      (s.request i).tracked = [] := by
    have hrequest := hinv.request i
    unfold Request.Inv at hrequest
    rwa [hstage] at hrequest
  have hfree := not_occupied_of_none hfresh.1
  unfold GateState.concurrencyGate
  split_ifs with hexempt hfull
  · -- the gate is off or the request exempt: no slot, whatever the handler
    unfold GateState.next
    split_ifs
    all_goals
      refine hinv.moves (moves_setRequest (iff_of_false (not_occupied_of_none rfl) hfree))
        hinv.bounded ?_
      rw [setRequest_request_self]
    · exact ⟨rfl, hfresh.2⟩
    · exact .inl ⟨rfl, hfresh.2.1⟩
  · refine hinv.moves (i := i) ⟨fun j hne => setRequest_request_of_ne _ hne, rfl, .inl ⟨rfl, ?_⟩⟩
      hinv.bounded ?_
    · rw [setRequest_request_self]
      exact iff_of_false (not_occupied_of_none hfresh.1) hfree
    · rw [setRequest_request_self]
      exact hfresh
  · unfold GateState.next
    split_ifs
    all_goals
      refine hinv.moves (i := i)
        ⟨fun j hne => setRequest_request_of_ne _ hne, rfl, .inr (.inl ⟨rfl, ?_, hfree⟩)⟩
        (by rw [setRequest_inFlight]; dsimp only; omega) ?_
      all_goals rw [setRequest_request_self]
    · exact (occupied_of_slot rfl).mpr rfl
    · refine ⟨_, rfl, rfl, rfl, hfresh.2.1, fun promise hmem => ?_⟩
      rw [show (s.request i).tracked = [] from hfresh.2.2] at hmem
      cases hmem
    · exact (occupied_of_slot rfl).mpr rfl
    · exact .inr ⟨_, rfl, rfl, hfresh.2.1⟩

theorem GateInv.settleHandler (hinv : GateInv limit s) (hstage : (s.request i).stage = .running)
    (outcome : Outcome) : GateInv limit (s.settleHandler i outcome) := by
  unfold GateState.settleHandler
  refine hinv.moves (moves_setRequest Iff.rfl) hinv.bounded ?_
  have hrequest := hinv.request i
  unfold Request.Inv at hrequest
  rw [hstage] at hrequest
  rw [setRequest_request_self]
  exact hrequest

/-- One look at the slot's work, when what was awaited before has settled. -/
theorem GateInv.drain (hinv : GateInv limit s) {slot : Slot ω}
    (hslot : (s.request i).slot = some slot) (hclaimed : slot.claimed = true)
    (hheld : slot.released = false) (hcount : (s.request i).releases = 0)
    (htracked : ∀ promise ∈ (s.request i).tracked, s.settled promise ∨ promise ∈ slot.work) :
    GateInv limit (s.drain i) := by
  have hoccupied : (s.request i).Occupied := (occupied_of_slot hslot).mpr hheld
  unfold GateState.drain
  simp only [hslot]
  split_ifs with hwork
  · refine hinv.release rfl hheld hoccupied ⟨_, rfl, hclaimed, rfl, by simp [hcount], ?_⟩
    intro promise hmem
    have hpromise := htracked promise hmem
    rw [hwork] at hpromise
    exact hpromise.resolve_right List.not_mem_nil
  · refine hinv.moves (moves_setRequest ?_) hinv.bounded ?_
    · rw [occupied_of_slot rfl, occupied_of_slot hslot]
    · rw [setRequest_request_self]
      exact ⟨_, rfl, hclaimed, hheld, hcount, fun promise hmem =>
        (htracked promise hmem).imp_right .inr⟩

theorem GateInv.trackWork (hinv : GateInv limit s) (hstage : (s.request i).stage.Active)
    (promise : ω) : GateInv limit (s.trackWork i promise) := by
  have hrequest := hinv.request i
  unfold Request.Inv at hrequest
  have hactive : ∃ slot, (s.request i).slot = some slot := by
    cases hs : (s.request i).stage <;> rw [hs] at hstage hrequest <;> try exact hstage.elim
    all_goals
      obtain ⟨slot, hslot, -⟩ := hrequest
      exact ⟨slot, hslot⟩
  obtain ⟨slot, hslot⟩ := hactive
  unfold GateState.trackWork
  simp only [hslot]
  refine hinv.moves (moves_setRequest ?_) hinv.bounded ?_
  · rw [occupied_of_slot rfl, occupied_of_slot hslot]
  rw [setRequest_request_self]
  unfold Request.Inv
  dsimp only
  cases hs : (s.request i).stage <;> rw [hs] at hstage hrequest <;> try exact hstage.elim
  case running | handled =>
    obtain ⟨slot', hslot', hclaimed, hheld, hcount, htracked⟩ := hrequest
    rw [hslot, Option.some.injEq] at hslot'
    subst hslot'
    refine ⟨_, rfl, hclaimed, hheld, hcount, fun other hmem => ?_⟩
    rw [List.mem_append, List.mem_singleton]
    rcases List.mem_cons.mp hmem with rfl | hmem
    · exact .inr (.inr rfl)
    · exact (htracked other hmem).imp_right .inl
  case draining =>
    obtain ⟨slot', hslot', hclaimed, hheld, hcount, htracked⟩ := hrequest
    rw [hslot, Option.some.injEq] at hslot'
    subst hslot'
    refine ⟨_, rfl, hclaimed, hheld, hcount, fun other hmem => ?_⟩
    rw [List.mem_append, List.mem_singleton]
    rcases List.mem_cons.mp hmem with rfl | hmem
    · exact .inr (.inl (.inr rfl))
    · exact (htracked other hmem).imp_right fun h => h.imp_left .inl

variable [DecidableEq ω]

omit [DecidableEq τ] in
theorem GateInv.settleWork (hinv : GateInv limit s) (promise : ω) :
    GateInv limit (s.settleWork promise) := by
  refine ⟨hinv.counted, hinv.bounded, fun j => (hinv.request j).mono fun other hsettled => ?_⟩
  by_cases hother : other = promise
  · subst hother
    exact Function.update_self ..
  · rw [← hsettled]
    exact Function.update_of_ne hother ..

/-! ### Every run -/

omit [DecidableEq τ] [DecidableEq ω] in
theorem gateInv_initial : GateInv limit (initial : GateState τ ω) where
  counted := ⟨∅, fun i => iff_of_false (Finset.notMem_empty i) (not_occupied_of_none rfl), rfl⟩
  bounded := Int.natCast_nonneg limit
  request _ := ⟨rfl, rfl, rfl⟩

theorem GateInv.step {skip held : τ → Bool} (hinv : GateInv limit s)
    (hstep : GateStep limit skip held s t) : GateInv limit t := by
  cases hstep with
  | arrive hstage => exact hinv.concurrencyGate skip held hstage
  | finish hstage honce => exact hinv.releaseIfUnclaimed rfl rfl rfl rfl
  | close hstage honce => exact hinv.releaseIfUnclaimed rfl rfl rfl rfl
  | settleHandler hstage outcome => exact hinv.settleHandler hstage outcome
  | @drain i outcome hstage =>
      have hrequest := hinv.request i
      unfold Request.Inv at hrequest
      rw [hstage] at hrequest
      obtain ⟨slot, hslot, hclaimed, hheld, hcount, htracked⟩ := hrequest
      exact hinv.drain hslot hclaimed hheld hcount htracked
  | @drainAgain i awaited hstage hsettled =>
      have hrequest := hinv.request i
      unfold Request.Inv at hrequest
      rw [hstage] at hrequest
      obtain ⟨slot, hslot, hclaimed, hheld, hcount, htracked⟩ := hrequest
      refine hinv.drain hslot hclaimed hheld hcount fun promise hmem => ?_
      rcases htracked promise hmem with hdone | hwork | hawaited
      · exact .inl hdone
      · exact .inr hwork
      · exact .inl (hsettled promise hawaited)
  | track hstage promise => exact hinv.trackWork hstage promise
  | settleWork promise => exact hinv.settleWork promise

/-- **The gate's accounting.** Every interleaving keeps the count at the number of slots not given
back, between zero and the limit; a slot is given back once, and a claimed one after its handler and
all its tracked work have settled; so no more held requests work than the count says. -/
theorem gate_accounting {skip held : τ → Bool} (hreach : GateReachable limit skip held s) :
    (∃ A : Finset τ, (∀ i, i ∈ A ↔ (s.request i).Occupied) ∧ s.inFlight = A.card) ∧
    0 ≤ s.inFlight ∧ s.inFlight ≤ limit ∧
    (∀ i, (s.request i).releases ≤ 1) ∧
    (∀ i slot, (s.request i).slot = some slot → slot.claimed = true → slot.released = true →
      (s.request i).stage = .drained ∧
        ∀ promise ∈ (s.request i).tracked, s.settled promise = true) ∧
    ∀ R : Finset τ, (∀ i ∈ R, (s.request i).Working s.settled) → (R.card : Int) ≤ s.inFlight := by
  have hinv : GateInv limit s := hreach.invariant
    (fun s hinit => hinit ▸ gateInv_initial) fun s t hinv hstep => hinv.step hstep
  obtain ⟨A, hmem, hcard⟩ := hinv.counted
  refine ⟨⟨A, hmem, hcard⟩, hcard ▸ Int.natCast_nonneg _, hinv.bounded,
    fun i => (hinv.request i).releases_le,
    fun i slot hslot hclaimed hreleased => (hinv.request i).of_released hslot hclaimed hreleased, ?_⟩
  intro R hworking
  have hsub : R ⊆ A := fun i hi => (hmem i).mpr ((hinv.request i).occupied (hworking i hi))
  rw [hcard]
  exact_mod_cast Finset.card_le_card hsub

/-- The client hangs up while a tracked promise is still running: the slot is kept. -/
theorem gate_accounting_aborted : ∃ s : GateState Nat Nat,
    (s.request 0).closed = true ∧ (s.request 0).stage = .draining [5] ∧ (1 : Int) ≤ s.inFlight := by
  have harrived : GateReachable 1 (fun _ => false) (fun _ => true)
      ((initial : GateState Nat Nat).concurrencyGate 0 1 (fun _ => false) fun _ => true) :=
    .next (.start rfl) (.arrive rfl)
  have htracked := harrived.next (.track (i := 0) (by exact trivial) 5)
  have hclosed := htracked.next (.close (i := 0) (fun h => nomatch h) rfl)
  have hhandled := hclosed.next (.settleHandler (i := 0) rfl .returned)
  have hdraining := hhandled.next (.drain (i := 0) rfl)
  have hcount := (gate_accounting hdraining).2.2.2.2.2 {0} fun i hi => by
    rw [Finset.mem_singleton.mp hi]
    exact ⟨_, rfl, rfl, .inr ⟨5, List.mem_singleton_self 5, rfl⟩⟩
  exact ⟨_, rfl, rfl, hcount⟩

end UtxoTracker.ConcurrencyGate

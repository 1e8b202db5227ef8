import UtxoTracker.Concurrency.Lifecycle
/-!
# Stop and relaunch in order

Between its steps the process is in one of four situations: a run is starting, a run is in its loop,
the tracker is stopped, or it is halted. Each fixes which flags are up, which store is open and what
the request behind the guard can be waiting for.
-/

namespace UtxoTracker

variable {τ : Type*}

namespace Lifecycle

/-! ### The situations -/

/-- The run `n` has been launched and is not in its loop yet. -/
structure StartingAt (s : Lifecycle τ) (n : Nat) : Prop where
  run : (s.run n).Starting
  others : ∀ m, m ≠ n → ¬ (s.run m).InProgress
  db : s.db = n
  opened : s.run n = .loading → s.isOpen n = true
  isOpen : ∀ store, s.isOpen store = true → store = n
  flags : s.parsingStopped = false → s.parsingAborted = false
  request : ∀ i, (s.request i).HoldsGuard →
    s.parsingStopped = false ∧ ∃ triesCount, s.request i = .waiting triesCount

/-- The run `n` is in its loop, or closes its store behind it. -/
structure LoopingAt (s : Lifecycle τ) (n : Nat) : Prop where
  run : s.run n = .polling ∨ s.run n = .closing s.db
  others : ∀ m, m ≠ n → ¬ (s.run m).InProgress
  opened : s.isOpen s.db = true
  isOpen : ∀ store, s.isOpen store = true → store = s.db
  parsingStopped : s.parsingStopped = false
  parsingAborted : s.parsingAborted = false
  request : ∀ i, (s.request i).HoldsGuard → ∃ triesCount, s.request i = .waiting triesCount

structure Stopped (s : Lifecycle τ) : Prop where
  quiet : s.Quiet
  parsingStopped : s.parsingStopped = true
  request : ∀ i store, s.request i ≠ .closing store

structure Halted (s : Lifecycle τ) : Prop where
  run : ∀ n, ¬ (s.run n).InProgress
  isOpen : ∀ store, s.isOpen store = true → store = s.db
  parsingStopped : s.parsingStopped = false
  parsingAborted : s.parsingAborted = true
  request : ∀ i, (s.request i).HoldsGuard → s.request i = .closing s.db

inductive Situation (s : Lifecycle τ) : Prop where
  | starting (n : Nat) (hstarting : s.StartingAt n)
  | looping (n : Nat) (hlooping : s.LoopingAt n)
  | stopped (hstopped : s.Stopped)
  | halted (hhalted : s.Halted)

/-- The guard admits one request at a time. -/
structure Guarded (s : Lifecycle τ) : Prop where
  busy : ∀ i, (s.request i).HoldsGuard → s.busy = true
  unique : ∀ i j, (s.request i).HoldsGuard → (s.request j).HoldsGuard → i = j

structure Inv (s : Lifecycle τ) : Prop where
  guarded : s.Guarded
  situation : s.Situation

variable {s s' : Lifecycle τ} {n : Nat} {i : τ}

/-! ### Which situation a stage belongs to -/

theorem Situation.of_starting (hsituation : s.Situation) (hstage : (s.run n).Starting) :
    s.StartingAt n := by
  have hprogress : (s.run n).InProgress := by
    cases hrun : s.run n <;> simp_all [RunStage.Starting, RunStage.InProgress]
  cases hsituation with
  | starting m hstarting =>
      by_cases hne : n = m
      · exact hne ▸ hstarting
      · exact absurd hprogress (hstarting.others n hne)
  | looping m hlooping =>
      by_cases hne : n = m
      · subst hne
        rcases hlooping.run with hrun | hrun <;> rw [hrun] at hstage <;> exact hstage.elim
      · exact absurd hprogress (hlooping.others n hne)
  | stopped hstopped => exact absurd hprogress (hstopped.quiet.1 n)
  | halted hhalted => exact absurd hprogress (hhalted.run n)

theorem Situation.of_looping (hsituation : s.Situation) (hprogress : (s.run n).InProgress)
    (hstage : ¬ (s.run n).Starting) : s.LoopingAt n := by
  cases hsituation with
  | starting m hstarting =>
      by_cases hne : n = m
      · exact absurd (hne ▸ hstarting.run) hstage
      · exact absurd hprogress (hstarting.others n hne)
  | looping m hlooping =>
      by_cases hne : n = m
      · exact hne ▸ hlooping
      · exact absurd hprogress (hlooping.others n hne)
  | stopped hstopped => exact absurd hprogress (hstopped.quiet.1 n)
  | halted hhalted => exact absurd hprogress (hhalted.run n)

theorem Situation.of_resolved (hsituation : s.Situation) (hstage : s.request i = .resolved) :
    s.Stopped := by
  have hholds : (s.request i).HoldsGuard := by
    rw [hstage]
    trivial
  cases hsituation with
  | starting n hstarting =>
      obtain ⟨-, triesCount, hwaiting⟩ := hstarting.request i hholds
      cases hstage.symm.trans hwaiting
  | looping n hlooping =>
      obtain ⟨triesCount, hwaiting⟩ := hlooping.request i hholds
      cases hstage.symm.trans hwaiting
  | stopped hstopped => exact hstopped
  | halted hhalted => cases hstage.symm.trans (hhalted.request i hholds)

theorem Situation.of_closing {store : Nat} (hsituation : s.Situation)
    (hstage : s.request i = .closing store) : s.Halted := by
  have hholds : (s.request i).HoldsGuard := by
    rw [hstage]
    trivial
  cases hsituation with
  | starting n hstarting =>
      obtain ⟨-, triesCount, hwaiting⟩ := hstarting.request i hholds
      cases hstage.symm.trans hwaiting
  | looping n hlooping =>
      obtain ⟨triesCount, hwaiting⟩ := hlooping.request i hholds
      cases hstage.symm.trans hwaiting
  | stopped hstopped => exact absurd hstage (hstopped.request i store)
  | halted hhalted => exact hhalted

/-! ### The guard -/

theorem Guarded.free (hguarded : s.Guarded) (hbusy : s.busy = false) (j : τ) :
    ¬ (s.request j).HoldsGuard := by
  intro hholds
  cases hbusy.symm.trans (hguarded.busy j hholds)

theorem Guarded.alone (hguarded : s.Guarded) (hholds : (s.request i).HoldsGuard) :
    ∀ j, j ≠ i → ¬ (s.request j).HoldsGuard := by
  intro j hne hj
  exact hne (hguarded.unique j i hj hholds)

/-! ### Steps of a run -/

theorem Inv.opened (hinv : s.Inv) (hstage : s.run n = .opening)
    (hfree : ∀ store, s.isOpen store = false) : (s.opened n).Inv := by
  have hstarting := hinv.situation.of_starting (n := n) (by rw [hstage]; trivial)
  refine ⟨⟨hinv.guarded.busy, hinv.guarded.unique⟩, .starting n ?_⟩
  exact {
    run := by
      change (Function.update s.run n RunStage.loading n).Starting
      rw [Function.update_self]
      trivial
    others := by
      intro m hne
      change ¬ (Function.update s.run n RunStage.loading m).InProgress
      rw [Function.update_of_ne hne]
      exact hstarting.others m hne
    db := hstarting.db
    opened := fun _ => Function.update_self ..
    isOpen := by
      intro store hopen
      by_contra hne
      change Function.update s.isOpen n true store = true at hopen
      rw [Function.update_of_ne hne, hfree] at hopen
      cases hopen
    flags := hstarting.flags
    request := hstarting.request }

/-- Once no other run is in progress, a run that leaves leaves none. -/
theorem notInProgress_setRun {stage : RunStage} (hothers : ∀ m, m ≠ n → ¬ (s.run m).InProgress)
    (hstage : ¬ stage.InProgress) (m : Nat) :
    ¬ (Function.update s.run n stage m).InProgress := by
  by_cases hne : m = n
  · subst hne
    rwa [Function.update_self]
  · rw [Function.update_of_ne hne]
    exact hothers m hne

/-- A run halts with no stop waiting for its loop. -/
theorem Inv.halt (hinv : s.Inv)
    (hothers : ∀ m, m ≠ n → ¬ (s.run m).InProgress)
    (hopen : ∀ store, s.isOpen store = true → store = s.db)
    (hrequest : ∀ i, (s.request i).HoldsGuard → ∃ triesCount, s.request i = .waiting triesCount)
    (hnone : ∀ i triesCount, s.request i ≠ .waiting triesCount) :
    (s.enterHaltedState.setRun n .halted).Inv := by
  refine ⟨⟨hinv.guarded.busy, hinv.guarded.unique⟩, .halted ?_⟩
  exact {
    run := notInProgress_setRun hothers id
    isOpen := hopen
    parsingStopped := rfl
    parsingAborted := rfl
    request := by
      intro i hholds
      obtain ⟨triesCount, hwaiting⟩ := hrequest i hholds
      exact absurd hwaiting (hnone i triesCount) }

theorem Inv.marked (hinv : s.Inv) (hstage : s.run n = .loading)
    (hnone : ∀ i triesCount, s.request i ≠ .waiting triesCount) :
    (s.enterHaltedState.setRun n .halted).Inv := by
  have hstarting := hinv.situation.of_starting (n := n) (by rw [hstage]; trivial)
  apply hinv.halt hstarting.others _ (fun i hholds => (hstarting.request i hholds).2) hnone
  intro store hopen
  rw [hstarting.isOpen store hopen, hstarting.db]

theorem Inv.aborted (hinv : s.Inv) (hstage : s.run n = .polling)
    (hnone : ∀ i triesCount, s.request i ≠ .waiting triesCount) :
    (s.enterHaltedState.setRun n .halted).Inv := by
  have hlooping := hinv.situation.of_looping (n := n) (by rw [hstage]; trivial)
    (by rw [hstage]; exact id)
  exact hinv.halt hlooping.others hlooping.isOpen hlooping.request hnone

theorem Inv.loaded (hinv : s.Inv) (hstage : s.run n = .loading) :
    (s.enterLoop n).Inv := by
  have hstarting := hinv.situation.of_starting (n := n) (by rw [hstage]; trivial)
  refine ⟨⟨hinv.guarded.busy, hinv.guarded.unique⟩, .looping n ?_⟩
  exact {
    run := Or.inl (Function.update_self ..)
    others := by
      intro m hne
      change ¬ (Function.update s.run n RunStage.polling m).InProgress
      rw [Function.update_of_ne hne]
      exact hstarting.others m hne
    opened := by
      change s.isOpen s.db = true
      rw [hstarting.db]
      exact hstarting.opened hstage
    isOpen := by
      intro store hopen
      exact (hstarting.isOpen store hopen).trans hstarting.db.symm
    parsingStopped := rfl
    parsingAborted := rfl
    request := fun i hholds => (hstarting.request i hholds).2 }

theorem LoopingAt.loopHead (hlooping : s.LoopingAt n) : (s.loopHead n).LoopingAt n := by
  unfold Lifecycle.loopHead
  split
  · exact { hlooping with
      run := Or.inl (Function.update_self ..)
      others := by
        intro m hne
        change ¬ (Function.update s.run n RunStage.polling m).InProgress
        rw [Function.update_of_ne hne]
        exact hlooping.others m hne }
  · exact { hlooping with
      run := Or.inr (Function.update_self ..)
      others := by
        intro m hne
        change ¬ (Function.update s.run n (RunStage.closing s.db) m).InProgress
        rw [Function.update_of_ne hne]
        exact hlooping.others m hne }

theorem loopHead_guarded (hguarded : s.Guarded) : (s.loopHead n).Guarded := by
  unfold Lifecycle.loopHead
  split <;> exact ⟨hguarded.busy, hguarded.unique⟩

theorem Inv.passed (hinv : s.Inv) (hstage : s.run n = .polling)
    (mempoolInterval : Bool) : ({ s with mempoolInterval }.loopHead n).Inv := by
  have hlooping := hinv.situation.of_looping (n := n) (by rw [hstage]; trivial)
    (by rw [hstage]; exact id)
  have hset : ({ s with mempoolInterval } : Lifecycle τ).LoopingAt n := { hlooping with }
  exact ⟨loopHead_guarded ⟨hinv.guarded.busy, hinv.guarded.unique⟩, .looping n hset.loopHead⟩

theorem Inv.loopClosed {store : Nat} (hinv : s.Inv)
    (hstage : s.run n = .closing store) : (s.loopClosed n store).Inv := by
  have hlooping := hinv.situation.of_looping (n := n) (by rw [hstage]; trivial)
    (by rw [hstage]; exact id)
  have hstore : store = s.db := by
    rcases hlooping.run with hrun | hrun
    · cases hstage.symm.trans hrun
    · exact RunStage.closing.inj (hstage.symm.trans hrun)
  refine ⟨⟨hinv.guarded.busy, hinv.guarded.unique⟩, .stopped ?_⟩
  refine ⟨⟨notInProgress_setRun hlooping.others id, fun other => ?_⟩, rfl, fun i closing h => ?_⟩
  · change Function.update s.isOpen store false other = false
    by_cases hne : other = store
    · subst hne
      exact Function.update_self ..
    · rw [Function.update_of_ne hne, Bool.eq_false_iff]
      intro hopen
      exact hne ((hlooping.isOpen other hopen).trans hstore.symm)
  · obtain ⟨triesCount, hwaiting⟩ := hlooping.request i (by
      change s.request i = _ at h
      rw [h]
      trivial)
    cases hwaiting.symm.trans h

/-! ### Steps of a request -/

variable [DecidableEq τ]

/-- A request moves while no other holds the guard. -/
theorem guarded_of_alone {stage : RequestStage} (halone : ∀ j, j ≠ i → ¬ (s.request j).HoldsGuard)
    (hrequest : s'.request = Function.update s.request i stage)
    (hbusy : stage.HoldsGuard → s'.busy = true) : s'.Guarded := by
  have hself : ∀ j, (s'.request j).HoldsGuard → j = i ∧ stage.HoldsGuard := by
    intro j hholds
    rw [hrequest] at hholds
    by_cases hne : j = i
    · subst hne
      rw [Function.update_self] at hholds
      exact ⟨rfl, hholds⟩
    · rw [Function.update_of_ne hne] at hholds
      exact absurd hholds (halone j hne)
  refine ⟨fun j hj => hbusy (hself j hj).2, fun j k hj hk => ?_⟩
  exact (hself j hj).1.trans (hself k hk).1.symm

theorem beginAdminOperation_eq (s : Lifecycle τ) (i : τ) :
    s.beginAdminOperation i =
      if s.parsingAborted && !s.parsingStopped then
        { s with busy := true, keepParsing := false, mempoolInterval := false }.setRequest i
          (.closing s.db)
      else
        { s with busy := true, keepParsing := false, mempoolInterval := false }.awaitStopped i 10 :=
  rfl

theorem awaitStopped_stopped (hstopped : s.parsingStopped = true) (triesCount : Nat) :
    s.awaitStopped i triesCount = s.setRequest i .resolved := by
  simp [awaitStopped, hstopped]

theorem awaitStopped_waiting {triesCount : Nat} (hrunning : s.parsingStopped = false)
    (hleft : 0 < triesCount) :
    s.awaitStopped i triesCount = s.setRequest i (.waiting triesCount) := by
  simp [awaitStopped, hrunning, hleft]

theorem awaitStopped_timeout (hrunning : s.parsingStopped = false) :
    s.awaitStopped i 0 =
      { s with keepParsing := true, mempoolInterval := true, busy := false }.setRequest i
        .rejected := by
  simp [awaitStopped, hrunning]

/-- What holds of every holder of the guard still holds when a request without it moves. -/
theorem holders_setRequest {stage : RequestStage} (good : RequestStage → Prop)
    (hgood : ∀ j, (s.request j).HoldsGuard → good (s.request j))
    (hstage : stage.HoldsGuard → good stage) (j : τ)
    (hholds : (Function.update s.request i stage j).HoldsGuard) :
    good (Function.update s.request i stage j) := by
  by_cases hne : j = i
  · subst hne
    rw [Function.update_self] at hholds ⊢
    exact hstage hholds
  · rw [Function.update_of_ne hne] at hholds ⊢
    exact hgood j hholds

theorem Stopped.setRequest {stage : RequestStage} (hstopped : s.Stopped)
    (hstage : ∀ store, stage ≠ .closing store) : (s.setRequest i stage).Stopped where
  quiet := hstopped.quiet
  parsingStopped := hstopped.parsingStopped
  request := by
    intro j store hclosing
    have hnot := holders_setRequest (i := i) (fun stage => stage ≠ .closing store)
      (fun j _ => hstopped.request j store) (fun _ => hstage store) j
    apply hnot _ hclosing
    rw [show Function.update s.request i stage j = .closing store from hclosing]
    trivial

theorem StartingAt.setRequest {stage : RequestStage} (hstarting : s.StartingAt n)
    (hstage : stage.HoldsGuard →
      s.parsingStopped = false ∧ ∃ triesCount, stage = .waiting triesCount) :
    (s.setRequest i stage).StartingAt n :=
  { hstarting with
    request := holders_setRequest
      (fun stage => s.parsingStopped = false ∧ ∃ triesCount, stage = .waiting triesCount)
      hstarting.request hstage }

theorem LoopingAt.setRequest {stage : RequestStage} (hlooping : s.LoopingAt n)
    (hstage : stage.HoldsGuard → ∃ triesCount, stage = .waiting triesCount) :
    (s.setRequest i stage).LoopingAt n :=
  { hlooping with
    request := holders_setRequest (fun stage => ∃ triesCount, stage = .waiting triesCount)
      hlooping.request hstage }

theorem Halted.setRequest {stage : RequestStage} (hhalted : s.Halted)
    (hstage : stage.HoldsGuard → stage = .closing s.db) : (s.setRequest i stage).Halted :=
  { hhalted with
    request := holders_setRequest (fun stage => stage = .closing s.db)
      hhalted.request hstage }

/-- A request without the guard moves to a stage without it. -/
theorem Inv.refused (hinv : s.Inv) (hstage : s.request i = .notReceived) :
    (s.setRequest i .refused).Inv := by
  have hholds : ∀ j, ((s.setRequest i .refused).request j).HoldsGuard →
      (s.request j).HoldsGuard := by
    intro j
    by_cases hne : j = i
    · subst hne
      exact fun h => absurd h (by simp [Lifecycle.setRequest, RequestStage.HoldsGuard])
    · simp [Lifecycle.setRequest, Function.update_of_ne hne]
  refine ⟨⟨fun j hj => hinv.guarded.busy j (hholds j hj),
    fun j k hj hk => hinv.guarded.unique j k (hholds j hj) (hholds k hk)⟩, ?_⟩
  cases hinv.situation with
  | starting n hstarting => exact .starting n (hstarting.setRequest False.elim)
  | looping n hlooping => exact .looping n (hlooping.setRequest False.elim)
  | stopped hstopped => exact .stopped (hstopped.setRequest fun store => RequestStage.noConfusion)
  | halted hhalted => exact .halted (hhalted.setRequest False.elim)

/-- A stop that is called, or woken up, with a second left. -/
theorem Situation.awaitStopped {triesCount : Nat} (hsituation : s.Situation)
    (hnotHalted : ¬ s.Halted) (hstarting : ∀ n, s.StartingAt n → s.parsingStopped = false)
    (hleft : 0 < triesCount) : (s.awaitStopped i triesCount).Situation := by
  cases hsituation with
  | starting n h =>
      rw [awaitStopped_waiting (hstarting n h) hleft]
      exact .starting n (h.setRequest fun _ => ⟨hstarting n h, triesCount, rfl⟩)
  | looping n h =>
      rw [awaitStopped_waiting h.parsingStopped hleft]
      exact .looping n (h.setRequest fun _ => ⟨triesCount, rfl⟩)
  | stopped h =>
      rw [awaitStopped_stopped h.parsingStopped]
      exact .stopped (h.setRequest fun store => RequestStage.noConfusion)
  | halted h => exact absurd h hnotHalted

theorem awaitStopped_guarded {triesCount : Nat} (hbusy : s.busy = true)
    (halone : ∀ j, j ≠ i → ¬ (s.request j).HoldsGuard) : (s.awaitStopped i triesCount).Guarded := by
  unfold Lifecycle.awaitStopped
  split
  · exact guarded_of_alone halone rfl fun _ => hbusy
  · split
    · exact guarded_of_alone halone rfl False.elim
    · exact guarded_of_alone halone rfl fun _ => hbusy

theorem Inv.stopParsing (hinv : s.Inv) (hguard : s.busy = false)
    (horder : s.parsingStopped = true → ∀ n, ¬ (s.run n).Starting) :
    (s.beginAdminOperation i).Inv := by
  have halone : ∀ j, j ≠ i → ¬ (s.request j).HoldsGuard := fun j _ => hinv.guarded.free hguard j
  rw [beginAdminOperation_eq]
  by_cases hhalted : s.Halted
  · rw [if_pos (by simp [hhalted.parsingAborted, hhalted.parsingStopped])]
    refine ⟨guarded_of_alone halone rfl fun _ => rfl, .halted ?_⟩
    exact Halted.setRequest { hhalted with } fun _ => rfl
  · have hstarting : ∀ n, s.StartingAt n → s.parsingStopped = false := by
      intro n h
      rw [Bool.eq_false_iff]
      exact fun hup => horder hup n h.run
    have hwait : (s.parsingAborted && !s.parsingStopped) = false := by
      cases hinv.situation with
      | starting n h => simp [h.flags (hstarting n h)]
      | looping n h => simp [h.parsingAborted]
      | stopped h => simp [h.parsingStopped]
      | halted h => exact absurd h hhalted
    rw [if_neg (by simp [hwait])]
    refine ⟨awaitStopped_guarded rfl halone, ?_⟩
    refine Situation.awaitStopped ?_ (fun h => hhalted { h with })
      (fun n h => hstarting n { h with }) (by omega)
    cases hinv.situation with
    | starting n h => exact .starting n { h with }
    | looping n h => exact .looping n { h with }
    | stopped h => exact .stopped { h with }
    | halted h => exact absurd h hhalted

theorem Inv.wake {triesCount : Nat} (hinv : s.Inv) (hstage : s.request i = .waiting triesCount)
    (horder : triesCount ≤ 1 → ∀ n, ¬ (s.run n).Starting ∧ ∀ store, s.run n ≠ .closing store) :
    (s.awaitStopped i (triesCount - 1)).Inv := by
  have hholds : (s.request i).HoldsGuard := by
    rw [hstage]
    trivial
  have halone := hinv.guarded.alone hholds
  refine ⟨awaitStopped_guarded (hinv.guarded.busy i hholds) halone, ?_⟩
  by_cases hleft : 0 < triesCount - 1
  · refine hinv.situation.awaitStopped ?_ (fun n h => (h.request i hholds).1) hleft
    intro h
    cases hstage.symm.trans (h.request i hholds)
  · have hlast : triesCount - 1 = 0 := by omega
    have horder := horder (by omega)
    rw [hlast]
    cases hinv.situation with
    | starting n h => exact absurd h.run (horder n).1
    | looping n h =>
        rw [awaitStopped_timeout h.parsingStopped]
        have hset : ({ s with keepParsing := true, mempoolInterval := true, busy := false } :
            Lifecycle τ).LoopingAt n := { h with }
        exact .looping n (hset.setRequest False.elim)
    | stopped h =>
        rw [awaitStopped_stopped h.parsingStopped]
        exact .stopped (h.setRequest fun store => RequestStage.noConfusion)
    | halted h => cases hstage.symm.trans (h.request i hholds)

theorem Inv.haltClosed {store : Nat} (hinv : s.Inv) (hstage : s.request i = .closing store) :
    (s.haltClosed i store).Inv := by
  have hholds : (s.request i).HoldsGuard := by
    rw [hstage]
    trivial
  have hhalted := hinv.situation.of_closing hstage
  have hstore : store = s.db := RequestStage.closing.inj (hstage.symm.trans (hhalted.request i hholds))
  have halone := hinv.guarded.alone hholds
  refine ⟨guarded_of_alone halone rfl fun _ => hinv.guarded.busy i hholds, .stopped ?_⟩
  refine ⟨⟨hhalted.run, fun other => ?_⟩, rfl, ?_⟩
  · change Function.update s.isOpen store false other = false
    by_cases hne : other = store
    · subst hne
      exact Function.update_self ..
    · rw [Function.update_of_ne hne, Bool.eq_false_iff]
      intro hopen
      exact hne ((hhalted.isOpen other hopen).trans hstore.symm)
  · intro j closing
    change Function.update s.request i RequestStage.resolved j ≠ _
    by_cases hne : j = i
    · subst hne
      rw [Function.update_self]
      exact RequestStage.noConfusion
    · rw [Function.update_of_ne hne]
      intro h
      apply halone j hne
      rw [h]
      trivial

theorem Inv.givenUp (hinv : s.Inv) (hstage : s.request i = .resolved) :
    (s.finishRequest i).Inv ∧ (s.finishRequest i).Stopped ∧
      ∀ j, ¬ ((s.finishRequest i).request j).HoldsGuard := by
  have hstopped := hinv.situation.of_resolved hstage
  have halone := hinv.guarded.alone (i := i) (by rw [hstage]; trivial)
  have hset : ({ s with busy := false } : Lifecycle τ).Stopped := { hstopped with }
  have hfinished : (s.finishRequest i).Stopped :=
    hset.setRequest fun store => RequestStage.noConfusion
  have hguarded : (s.finishRequest i).Guarded := guarded_of_alone halone rfl False.elim
  exact ⟨⟨hguarded, .stopped hfinished⟩, hfinished, hguarded.free rfl⟩

theorem Inv.relaunch (hinv : s.Inv) (hstage : s.request i = .resolved) :
    (s.finishRequest i).launch.Inv := by
  obtain ⟨hfinished, hstopped, hnone⟩ := hinv.givenUp hstage
  refine ⟨⟨hfinished.guarded.busy, hfinished.guarded.unique⟩, .starting s.launches ?_⟩
  have hself : (s.finishRequest i).launch.run s.launches = .opening := Function.update_self ..
  exact {
    run := by
      rw [hself]
      trivial
    others := by
      intro m hne
      change ¬ (Function.update s.run s.launches RunStage.opening m).InProgress
      rw [Function.update_of_ne hne]
      exact hstopped.quiet.1 m
    db := rfl
    opened := fun h => by cases hself.symm.trans h
    isOpen := by
      intro store hopen
      cases (hstopped.quiet.2 store).symm.trans hopen
    flags := by
      intro hdown
      cases hstopped.parsingStopped.symm.trans hdown
    request := fun j hholds => absurd hholds (hnone j) }

/-! ### Runs -/

omit [DecidableEq τ] in
theorem inv_boot : (boot : Lifecycle τ).Inv := by
  refine ⟨⟨fun i h => h.elim, fun i j h => h.elim⟩, .starting 0 ?_⟩
  have hself : (boot : Lifecycle τ).run 0 = .opening := rfl
  exact {
    run := by
      rw [hself]
      trivial
    others := by
      intro m hne
      change ¬ (Function.update (fun _ => RunStage.notLaunched) 0 RunStage.opening m).InProgress
      rw [Function.update_of_ne hne]
      exact id
    db := rfl
    opened := fun h => by cases hself.symm.trans h
    isOpen := fun store hopen => by cases hopen
    flags := fun _ => rfl
    request := fun i h => h.elim }

/-- **The step lemma.** -/
theorem Inv.step {event : LifecycleEvent τ} (hinv : s.Inv) (horder : InOrder s event)
    (hstep : LifecycleStep s event s') : s'.Inv := by
  cases hstep with
  | opened hstage hfree => exact hinv.opened hstage hfree
  | marked hstage => exact hinv.marked hstage horder
  | loaded hstage => exact hinv.loaded hstage
  | passed hstage mempoolInterval => exact hinv.passed hstage mempoolInterval
  | aborted hstage => exact hinv.aborted hstage horder
  | loopClosed hstage => exact hinv.loopClosed hstage
  | refused hstage => exact hinv.refused hstage
  | stopParsing hstage hguard => exact hinv.stopParsing hguard horder
  | wake hstage => exact hinv.wake hstage (horder _ hstage)
  | haltClosed hstage => exact hinv.haltClosed hstage
  | haltCloseFailed => exact horder.elim
  | relaunch hstage => exact hinv.relaunch hstage
  | givenUp hstage => exact (hinv.givenUp hstage).1

/-- **The run lemma.** -/
theorem Inv.reachable (hreach : LifecycleReachable InOrder s) : s.Inv := by
  refine Transition.Reachable.invariant ?_ ?_ hreach
  · rintro s rfl
    exact inv_boot
  · rintro s s' hinv ⟨event, horder, hstep⟩
    exact hinv.step horder hstep

/-! ### After a stop resolves -/

/-- A stopped tracker stays stopped until the next launch. -/
theorem Stopped.step {event : LifecycleEvent τ} (hstopped : s.Stopped) (hinv : s'.Inv)
    (hlaunch : ¬ event.IsLaunch) (hstep : LifecycleStep s event s') : s'.Stopped := by
  have hidle : ∀ n, (s.run n).InProgress → False := hstopped.quiet.1
  cases hstep with
  | @opened n hstage hfree => exact (hidle n (by rw [hstage]; trivial)).elim
  | @marked n hstage => exact (hidle n (by rw [hstage]; trivial)).elim
  | @loaded n hstage => exact (hidle n (by rw [hstage]; trivial)).elim
  | @passed n hstage => exact (hidle n (by rw [hstage]; trivial)).elim
  | @aborted n hstage => exact (hidle n (by rw [hstage]; trivial)).elim
  | @loopClosed n store hstage => exact (hidle n (by rw [hstage]; trivial)).elim
  | refused => exact hstopped.setRequest fun store => RequestStage.noConfusion
  | @stopParsing i hstage hguard =>
      have hset : ({ s with busy := true, keepParsing := false, mempoolInterval := false } :
          Lifecycle τ).Stopped := { hstopped with }
      rw [beginAdminOperation_eq, if_neg (by simp [hstopped.parsingStopped]), awaitStopped_stopped hset.parsingStopped]
      exact hset.setRequest fun store => RequestStage.noConfusion
  | wake hstage =>
      rw [awaitStopped_stopped hstopped.parsingStopped]
      exact hstopped.setRequest fun store => RequestStage.noConfusion
  | haltClosed hstage => exact (hstopped.request _ _ hstage).elim
  | haltCloseFailed hstage => exact (hstopped.request _ _ hstage).elim
  | relaunch => exact (hlaunch trivial).elim
  | givenUp =>
      have hset : ({ s with busy := false } : Lifecycle τ).Stopped := { hstopped with }
      exact hset.setRequest fun store => RequestStage.noConfusion

/-! ### After a stop rejects -/

/-- The run is in its loop with no stop pending, or it has halted. -/
inductive Undisturbed (s : Lifecycle τ) (n : Nat) : Prop where
  | indexing (hrun : s.run n = .polling) (hkeep : s.keepParsing = true)
      (hnone : ∀ i, ¬ (s.request i).HoldsGuard)
  | halted (hrun : s.run n = .halted) (hidle : ∀ m, ¬ (s.run m).InProgress)
      (hnone : ∀ i, ¬ (s.request i).HoldsGuard)

omit [DecidableEq τ] in
theorem Undisturbed.none (hundisturbed : s.Undisturbed n) : ∀ i, ¬ (s.request i).HoldsGuard := by
  cases hundisturbed with
  | indexing _ _ hnone => exact hnone
  | halted _ _ hnone => exact hnone

theorem notHolding_setRequest (hnone : ∀ i, ¬ (s.request i).HoldsGuard) (j : τ) :
    ¬ ((s.setRequest i .refused).request j).HoldsGuard := by
  intro hholds
  exact holders_setRequest (fun _ => False) hnone id j hholds

/-- Short of a stop, the run indexes on or halts. -/
theorem Undisturbed.step {event : LifecycleEvent τ} (hundisturbed : s.Undisturbed n) (hinv : s.Inv)
    (hstop : ¬ event.IsStop) (hstep : LifecycleStep s event s') : s'.Undisturbed n := by
  have hnone := hundisturbed.none
  have hholder : ∀ {i : τ} {stage : RequestStage}, s.request i = stage → stage.HoldsGuard → False :=
    fun hstage hholds => hnone _ (hstage ▸ hholds)
  cases hundisturbed with
  | indexing hrun hkeep =>
      have hlooping := hinv.situation.of_looping (n := n) (by rw [hrun]; trivial)
        (by rw [hrun]; exact id)
      have hother : ∀ {m : Nat} {stage : RunStage}, s.run m = stage → stage.InProgress →
          stage ≠ .polling → False := by
        intro m stage hstage hprogress hne
        by_cases hm : m = n
        · subst hm
          exact hne (hstage.symm.trans hrun)
        · exact hlooping.others m hm (hstage ▸ hprogress)
      have hself : ∀ {m : Nat}, s.run m = .polling → m = n := by
        intro m hstage
        by_contra hne
        exact hlooping.others m hne (by rw [hstage]; trivial)
      cases hstep with
      | opened hstage => exact (hother hstage trivial RunStage.noConfusion).elim
      | marked hstage => exact (hother hstage trivial RunStage.noConfusion).elim
      | loaded hstage => exact (hother hstage trivial RunStage.noConfusion).elim
      | passed hstage =>
          obtain rfl := hself hstage
          unfold Lifecycle.loopHead
          rw [if_pos hkeep]
          exact .indexing (Function.update_self ..) hkeep hnone
      | aborted hstage =>
          obtain rfl := hself hstage
          exact .halted (Function.update_self ..) (notInProgress_setRun hlooping.others id) hnone
      | loopClosed hstage => exact (hother hstage trivial RunStage.noConfusion).elim
      | refused => exact .indexing hrun hkeep (notHolding_setRequest hnone)
      | stopParsing => exact (hstop trivial).elim
      | wake hstage => exact (hholder hstage trivial).elim
      | haltClosed hstage => exact (hholder hstage trivial).elim
      | haltCloseFailed hstage => exact (hholder hstage trivial).elim
      | relaunch hstage => exact (hholder hstage trivial).elim
      | givenUp hstage => exact (hholder hstage trivial).elim
  | halted hrun hidle =>
      have hidle' : ∀ {m : Nat} {stage : RunStage}, s.run m = stage → stage.InProgress → False :=
        fun hstage hprogress => hidle _ (hstage ▸ hprogress)
      cases hstep with
      | opened hstage => exact (hidle' hstage trivial).elim
      | marked hstage => exact (hidle' hstage trivial).elim
      | loaded hstage => exact (hidle' hstage trivial).elim
      | passed hstage => exact (hidle' hstage trivial).elim
      | aborted hstage => exact (hidle' hstage trivial).elim
      | loopClosed hstage => exact (hidle' hstage trivial).elim
      | refused => exact .halted hrun hidle (notHolding_setRequest hnone)
      | stopParsing => exact (hstop trivial).elim
      | wake hstage => exact (hholder hstage trivial).elim
      | haltClosed hstage => exact (hholder hstage trivial).elim
      | haltCloseFailed hstage => exact (hholder hstage trivial).elim
      | relaunch hstage => exact (hholder hstage trivial).elim
      | givenUp hstage => exact (hholder hstage trivial).elim

/-! ### The step that ends a stop -/

theorem update_eq_self {stage stage' : RequestStage} {j : τ} (hbefore : s.request j ≠ stage)
    (hafter : Function.update s.request i stage' j = stage) : j = i ∧ stage' = stage := by
  by_cases hne : j = i
  · subst hne
    rw [Function.update_self] at hafter
    exact ⟨rfl, hafter⟩
  · rw [Function.update_of_ne hne] at hafter
    exact absurd hafter hbefore

/-- In order, a stop rejects at the tenth second of its wait alone, a run being in its loop. -/
theorem Inv.rejected {event : LifecycleEvent τ} (hinv : s.Inv) (horder : InOrder s event)
    (hstep : LifecycleStep s event s') (hbefore : s.request i ≠ .rejected)
    (hafter : s'.request i = .rejected) :
    s' = { s with keepParsing := true, mempoolInterval := true, busy := false }.setRequest i
        .rejected ∧
      (s.request i).HoldsGuard ∧ ∃ n, s.run n = .polling ∧ s.isOpen s.db = true := by
  cases hstep with
  | passed =>
      unfold Lifecycle.loopHead at hafter
      split at hafter <;> exact (hbefore hafter).elim
  | refused => cases (update_eq_self hbefore hafter).2
  | stopParsing =>
      rw [beginAdminOperation_eq] at hafter
      split at hafter
      · cases (update_eq_self (s := s) hbefore hafter).2
      · unfold Lifecycle.awaitStopped at hafter
        split at hafter
        · cases (update_eq_self (s := s) hbefore hafter).2
        · rw [if_neg (by omega)] at hafter
          cases (update_eq_self (s := s) hbefore hafter).2
  | @wake j triesCount hstage =>
      unfold Lifecycle.awaitStopped at hafter ⊢
      split at hafter
      · cases (update_eq_self hbefore hafter).2
      · rename_i hlast
        split at hafter
        · rename_i htimeout
          obtain ⟨rfl, -⟩ := update_eq_self (s := s) hbefore hafter
          have hholds : (s.request i).HoldsGuard := by
            rw [hstage]
            trivial
          rw [if_neg hlast, if_pos htimeout]
          refine ⟨rfl, hholds, ?_⟩
          have hclear := horder triesCount hstage (by omega)
          cases hinv.situation with
          | starting n h => exact absurd h.run (hclear n).1
          | looping n h => exact ⟨n, h.run.resolve_right ((hclear n).2 _), h.opened⟩
          | stopped h => simp [h.parsingStopped] at htimeout
          | halted h => cases hstage.symm.trans (h.request i hholds)
        · cases (update_eq_self hbefore hafter).2
  | haltClosed => cases (update_eq_self hbefore hafter).2
  | haltCloseFailed => exact horder.elim
  | relaunch => cases (update_eq_self hbefore hafter).2
  | givenUp => cases (update_eq_self hbefore hafter).2
  | opened | marked | loaded | aborted | loopClosed => exact (hbefore hafter).elim

/-- **Stop and relaunch never overlap a running tracker**, in every run clear of the four windows:
a stop that resolves leaves the tracker at rest until the next launch, and one that rejects leaves
its loop running on an open store. -/
theorem stop_never_overlaps_run : StopContract (τ := τ) InOrder where
  resolves := by
    intro s s' s'' event i hreach horder hstep _ hafter hrun
    have hinv' : s'.Inv := (Inv.reachable hreach).step horder hstep
    have hboth : s''.Stopped ∧ s''.Inv := by
      induction hrun with
      | refl => exact ⟨hinv'.situation.of_resolved hafter, hinv'⟩
      | tail _ hnext ih =>
          obtain ⟨event, horder, hlaunch, hstep⟩ := hnext
          have hinv := ih.2.step horder hstep
          exact ⟨ih.1.step hinv hlaunch hstep, hinv⟩
    exact hboth.1.quiet
  rejects := by
    intro s s' event i hreach horder hstep hbefore hafter
    have hinv := Inv.reachable hreach
    have hinv' := hinv.step horder hstep
    obtain ⟨rfl, hholds, n, hrun, hopen⟩ := hinv.rejected horder hstep hbefore hafter
    refine ⟨n, ⟨hrun, hopen⟩, fun s'' hmore => ?_⟩
    have hnone : ∀ j, ¬ (Function.update s.request i RequestStage.rejected j).HoldsGuard := by
      intro j
      by_cases hne : j = i
      · subst hne
        rw [Function.update_self]
        exact id
      · rw [Function.update_of_ne hne]
        exact hinv.guarded.alone hholds j hne
    have hboth : s''.Undisturbed n ∧ s''.Inv := by
      induction hmore with
      | refl => exact ⟨.indexing hrun rfl hnone, hinv'⟩
      | tail _ hnext ih =>
          obtain ⟨event, horder, hstop, hstep⟩ := hnext
          exact ⟨ih.1.step ih.2 hstop hstep, ih.2.step horder hstep⟩
    cases hboth.1 with
    | indexing hrun =>
        have hlooping := hboth.2.situation.of_looping (n := n) (by rw [hrun]; trivial)
          (by rw [hrun]; exact id)
        exact Or.inl ⟨hrun, hlooping.opened⟩
    | halted hrun => exact Or.inr hrun

/-- The tries of a wait run down while its run is in a pass. -/
theorem reachable_lastTry {triesCount : Nat} (hreach : LifecycleReachable InOrder s)
    (hstopped : s.parsingStopped = false) (hstage : s.request i = .waiting (triesCount + 1)) :
    LifecycleReachable InOrder (s.setRequest i (.waiting 1)) := by
  induction triesCount generalizing s with
  | zero =>
      have hsame : s.setRequest i (.waiting 1) = s := by
        rw [setRequest, ← hstage, Function.update_eq_self]
      rwa [hsame]
  | succ triesCount ih =>
      have hwoken : s.awaitStopped i (triesCount + 1) = s.setRequest i (.waiting (triesCount + 1)) :=
        if_pos (by simp [hstopped])
      have horder : InOrder s (.wake i) := by
        intro tries hwaiting hlast
        obtain rfl := RequestStage.waiting.inj (hstage.symm.trans hwaiting)
        omega
      have hnext := hreach.next ⟨_, horder, .wake hstage⟩
      rw [Nat.add_sub_cancel, hwoken] at hnext
      have hlater := ih hnext hstopped (Function.update_self ..)
      rwa [setRequest, setRequest, Function.update_idem] at hlater

/-- A stop that times out in a long pass, and a second one that the loop hears. -/
theorem stop_never_overlaps_run_twoStops :
    ∃ s₁ s₁' s₂ s₂' : Lifecycle (Fin 2),
      LifecycleReachable InOrder s₁ ∧ LifecycleStep s₁ (.wake 0) s₁' ∧
      s₁'.request 0 = .rejected ∧ (∃ n, s₁'.Indexing n) ∧
      LifecycleReachable InOrder s₂ ∧ LifecycleStep s₂ (.wake 1) s₂' ∧
      s₂'.request 1 = .resolved ∧ s₂'.Quiet := by
  have hboot : LifecycleReachable InOrder (boot : Lifecycle (Fin 2)) := .start rfl
  have hopened := hboot.next ⟨.opened 0, trivial, .opened rfl fun _ => rfl⟩
  have hloaded := hopened.next ⟨.loaded 0, trivial, .loaded rfl⟩
  have hstopping := hloaded.next ⟨.stopParsing 0, nofun, .stopParsing rfl rfl⟩
  have hwaiting : (((boot.opened 0).enterLoop 0).beginAdminOperation (0 : Fin 2)).request 0 =
      .waiting (9 + 1) := rfl
  have hlast := reachable_lastTry hstopping rfl hwaiting
  have hpolling : ∀ n, ¬ ((((boot : Lifecycle (Fin 2)).opened 0).enterLoop 0).run n).Starting ∧
      ∀ store, (((boot : Lifecycle (Fin 2)).opened 0).enterLoop 0).run n ≠ .closing store := by
    intro n
    by_cases hn : n = 0
    · subst hn
      exact ⟨id, fun _ => RunStage.noConfusion⟩
    · simp [boot, launch, opened, enterLoop, setRun, hn, RunStage.Starting]
  have htimeout := hlast.next ⟨.wake 0, fun _ _ _ => hpolling, .wake rfl⟩
  have hagain := htimeout.next ⟨.stopParsing 1, nofun, .stopParsing rfl rfl⟩
  have hclosing := hagain.next ⟨.passed 0, trivial, .passed rfl false⟩
  have hclosed := hclosing.next ⟨.loopClosed 0, trivial, .loopClosed rfl⟩
  obtain ⟨n, hindexing, -⟩ := stop_never_overlaps_run.rejects _ _ (.wake 0) 0 hlast
    (fun _ _ _ => hpolling) (.wake rfl) RequestStage.noConfusion rfl
  have hquiet := stop_never_overlaps_run.resolves _ _ _ (.wake 1) 1 hclosed
    (fun tries hwaits hle => by
      obtain rfl : 10 = tries := RequestStage.waiting.inj hwaits
      exact absurd hle (by decide))
    (.wake rfl) RequestStage.noConfusion rfl .refl
  exact ⟨_, _, _, _, hlast, .wake rfl, rfl, ⟨n, hindexing⟩, hclosed, .wake rfl, rfl, hquiet⟩

/-- A stop called while a relaunched run opens its store resolves at once: `parsingStopped` is still
up from the stop before. -/
theorem stop_overlaps_relaunch : ¬ StopContract (τ := Fin 2) fun _ _ => True := by
  intro hcontract
  have hboot : LifecycleReachable (fun _ _ => True) (boot : Lifecycle (Fin 2)) := .start rfl
  have hopened := hboot.next ⟨_, trivial, .opened (n := 0) rfl fun _ => rfl⟩
  have hloaded := hopened.next ⟨_, trivial, .loaded (n := 0) rfl⟩
  have hstopping := hloaded.next ⟨_, trivial, .stopParsing (i := 0) rfl rfl⟩
  have hclosing := hstopping.next ⟨_, trivial, .passed (n := 0) rfl false⟩
  have hclosed := hclosing.next ⟨.loopClosed 0, trivial, .loopClosed rfl⟩
  have hresolved := hclosed.next ⟨.wake 0, trivial, .wake rfl⟩
  have hrelaunched := hresolved.next ⟨_, trivial, .relaunch (i := 0) rfl⟩
  have hquiet := hcontract.resolves _ _ _ _ 1 hrelaunched trivial (.stopParsing (i := 1) rfl rfl)
    RequestStage.noConfusion rfl .refl
  exact hquiet.1 1 trivial

end Lifecycle

end UtxoTracker

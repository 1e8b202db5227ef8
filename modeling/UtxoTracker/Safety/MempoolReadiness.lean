import UtxoTracker.Concurrency.MempoolReadiness
/-!
# Readiness is earned

While no rollback commits and no `start` runs under a raised latch or a listing in hand, every pass
carries a listing as recent as the stores, and the latch rises by such passes alone.
-/

namespace UtxoTracker

namespace Readiness

variable {τ : Type*}

/-! ### Passes at work -/

/-- The pass is as recent as `marks`, and has committed its list up to `i`. -/
structure Working (pass : Pass) (marks : Marks) : Prop where
  takenAt : pass.takenAt = marks
  stores : ∀ commit ∈ pass.commits, commit.store = marks.starts
  done : pass.commits.flatMap MempoolCommit.txids = pass.rawMempool.take pass.i

/-- Before its prune a pass has committed nothing. -/
def PassStage.Fresh : PassStage → Prop
  | .listed pass | .readingTips pass | .pruning pass => pass.commits = [] ∧ pass.i = 0
  | _ => True

structure Inv (s : Readiness τ) : Prop where
  earned : s.Earned
  working : ∀ t pass, (s.call t).inHand = some pass → Working pass s.marks
  fresh : ∀ t, PassStage.Fresh (s.call t)

variable {s s' : Readiness τ} {t : τ} {pass : Pass}

theorem Working.current {marks : Marks} (hworking : Working pass marks)
    (hend : pass.rawMempool.length ≤ pass.i) : pass.Current marks where
  rollbacks := congrArg Marks.rollbacks hworking.takenAt
  starts := congrArg Marks.starts hworking.takenAt
  stores := hworking.stores
  complete := by rw [hworking.done, List.take_of_length_le hend]

/-! ### Steps -/

/-- A step that moves no call, and keeps the latch at most as high. -/
theorem Inv.latches (hinv : s.Inv) (hmarks : s'.marks = s.marks) (hcall : s'.call = s.call)
    (hlatch : s'.mempoolReconverged = true →
      s.mempoolReconverged = true ∧ s'.raisedBy = s.raisedBy) : s'.Inv where
  earned := by
    intro hup
    obtain ⟨hbefore, hby⟩ := hlatch hup
    rw [hmarks, hby]
    exact hinv.earned hbefore
  working := by
    rw [hmarks, hcall]
    exact hinv.working
  fresh := by
    rw [hcall]
    exact hinv.fresh

variable [DecidableEq τ]

/-- A step of one call that keeps the latch at most as high. -/
theorem Inv.move (stage : PassStage) (hinv : s.Inv) (hmarks : s'.marks = s.marks)
    (hcall : s'.call = Function.update s.call t stage)
    (hlatch : s'.mempoolReconverged = true →
      s.mempoolReconverged = true ∧ s'.raisedBy = s.raisedBy)
    (hworking : ∀ pass, stage.inHand = some pass → Working pass s.marks)
    (hfresh : PassStage.Fresh stage) : s'.Inv where
  earned := by
    intro hup
    obtain ⟨hbefore, hby⟩ := hlatch hup
    rw [hmarks, hby]
    exact hinv.earned hbefore
  working := by
    intro t' pass hhand
    rw [hcall] at hhand
    rw [hmarks]
    by_cases hne : t' = t
    · subst hne
      rw [Function.update_self] at hhand
      exact hworking pass hhand
    · rw [Function.update_of_ne hne] at hhand
      exact hinv.working t' pass hhand
  fresh := by
    intro t'
    rw [hcall]
    by_cases hne : t' = t
    · subst hne
      rwa [Function.update_self]
    · rw [Function.update_of_ne hne]
      exact hinv.fresh t'

/-- A call ends, the latch staying as it is. -/
theorem Inv.endPass (hinv : s.Inv) (t : τ) : (s.endPass t).Inv :=
  hinv.move .ended rfl rfl (fun hup => ⟨hup, rfl⟩) (fun _ h => by cases h) trivial

theorem Inv.updateMempool (hinv : s.Inv) (t : τ) : (s.updateMempool t).Inv := by
  unfold Readiness.updateMempool
  split
  · exact hinv.move .ended rfl rfl (fun hup => ⟨hup, rfl⟩) (fun _ h => by cases h) trivial
  · exact hinv.move .listing rfl rfl (fun hup => ⟨hup, rfl⟩) (fun _ h => by cases h)
      trivial

omit [DecidableEq τ] in
theorem Inv.down (hinv : s.Inv) : ({ s with mempoolReconverged := false } : Readiness τ).Inv :=
  hinv.latches rfl rfl fun hup => by cases hup

theorem Inv.withdrawMempoolReadiness (hinv : s.Inv) (t : τ) :
    (s.withdrawMempoolReadiness t).Inv := hinv.down.endPass t

/-- A pass at work goes round the batch loop, or ends by raising the latch. -/
theorem Inv.batchLoop (hinv : s.Inv) (hworking : Working pass s.marks) :
    (s.batchLoop t pass).Inv := by
  unfold Readiness.batchLoop
  split
  · refine hinv.move (.fetching pass) rfl rfl (fun hup => ⟨hup, rfl⟩) ?_ trivial
    intro pass' hhand
    rwa [← Option.some.inj hhand]
  · rename_i hend
    have hraised : ({ s with mempoolReconverged := true, raisedBy := some pass } :
        Readiness τ).Inv :=
      { earned := fun _ => ⟨pass, rfl, hworking.current (by omega)⟩
        working := hinv.working
        fresh := hinv.fresh }
    exact hraised.endPass t

theorem Inv.pruned (hinv : s.Inv) (hstage : s.call t = .pruning pass) (stored : List Hash) :
    (s.pruned t pass stored).Inv := by
  have hbefore := hinv.working t pass (by rw [hstage]; rfl)
  have hfresh := hinv.fresh t
  rw [hstage] at hfresh
  unfold Readiness.pruned
  refine Inv.batchLoop ?_ ?_
  · split
    · exact hinv
    · exact hinv.down
  · have hmarks : ∀ P : Prop, [Decidable P] →
        (if P then s else { s with mempoolReconverged := false }).marks = s.marks := by
      intro P _
      split <;> rfl
    rw [hmarks]
    exact {
      takenAt := hbefore.takenAt
      stores := by
        intro commit hmem
        rw [List.mem_singleton.mp hmem]
      done := by simp [hfresh.2] }

theorem Inv.batchStaged (hinv : s.Inv) (hstage : s.call t = .staging pass) :
    (s.batchStaged t pass).Inv := by
  have hbefore := hinv.working t pass (by rw [hstage]; rfl)
  refine hinv.batchLoop ⟨hbefore.takenAt, fun commit hmem => ?_, ?_⟩
  · rcases List.mem_append.mp hmem with hin | hin
    · exact hbefore.stores commit hin
    · rw [List.mem_singleton.mp hin]
  · change List.flatMap _ (pass.commits ++ [_]) = pass.rawMempool.take (pass.i + mempoolBatchSize)
    rw [List.flatMap_append, hbefore.done, List.take_add]
    simp

theorem Inv.fetchFailed (hinv : s.Inv) (hstage : s.call t = .fetching pass) :
    (s.fetchFailed t pass).Inv := by
  have hbefore := hinv.working t pass (by rw [hstage]; rfl)
  unfold Readiness.fetchFailed
  dsimp only
  split
  · exact hinv.withdrawMempoolReadiness t
  · refine hinv.move (.fetching _) rfl rfl (fun hup => ⟨hup, rfl⟩) ?_ trivial
    intro pass' hhand
    rw [← Option.some.inj hhand]
    exact ⟨hbefore.takenAt, hbefore.stores, hbefore.done⟩

theorem Inv.awaitResync (hinv : s.Inv) (t : τ) (tries : Nat) : (s.awaitResync t tries).Inv := by
  unfold Readiness.awaitResync
  split
  · exact hinv.move (.resyncing tries) rfl rfl (fun hup => ⟨hup, rfl⟩)
      (fun _ h => by cases h) trivial
  · exact hinv.down.updateMempool t

/-- **The step lemma.** -/
theorem Inv.step {event : ReadinessEvent τ} (hinv : s.Inv) (hcalm : Unhurried s event)
    (hstep : ReadinessStep s event s') : s'.Inv := by
  cases hstep with
  | tick => exact hinv.updateMempool _
  | takeListing =>
      refine hinv.move (.listed _) rfl rfl (fun hup => ⟨hup, rfl⟩) ?_ ⟨rfl, rfl⟩
      intro pass hhand
      rw [← Option.some.inj hhand]
      exact ⟨rfl, fun commit hmem => (by cases hmem), by simp⟩
  | listingFailed => exact hinv.endPass _
  | @received t pass hstage =>
      have hfresh := hinv.fresh t
      rw [hstage] at hfresh
      exact hinv.move (.readingTips _) rfl rfl (fun hup => ⟨hup, rfl⟩)
        (fun pass hhand => hinv.working _ pass (by rw [hstage]; exact hhand)) hfresh
  | @tipsRead t pass hstage =>
      have hfresh := hinv.fresh t
      rw [hstage] at hfresh
      exact hinv.move (.pruning _) rfl rfl (fun hup => ⟨hup, rfl⟩)
        (fun pass hhand => hinv.working _ pass (by rw [hstage]; exact hhand)) hfresh
  | pruned hstage => exact hinv.pruned hstage _
  | @fetched t pass hstage =>
      refine hinv.move (.staging _) rfl rfl (fun hup => ⟨hup, rfl⟩) ?_ trivial
      intro pass' hhand
      have hbefore := hinv.working t pass (by rw [hstage]; rfl)
      rw [← Option.some.inj hhand]
      exact ⟨hbefore.takenAt, hbefore.stores, hbefore.done⟩
  | fetchFailed hstage => exact hinv.fetchFailed hstage
  | batchStaged hstage => exact hinv.batchStaged hstage
  | passFailed => exact hinv.withdrawMempoolReadiness _
  | resync =>
      unfold Readiness.resyncMempoolAfterReorg
      split
      · exact hinv.down.awaitResync _ 0
      · exact hinv
  | resyncLook => exact hinv.awaitResync _ _
  | pollAtChainTip =>
      have hsynced : ({ s with synced := true } : Readiness τ).Inv :=
        hinv.latches rfl rfl fun hup => ⟨hup, rfl⟩
      unfold Readiness.pollAtChainTip
      dsimp only
      split
      · exact hsynced
      · exact (hsynced.updateMempool _).latches rfl rfl fun hup => ⟨hup, rfl⟩
  | tipRefused => exact hinv.latches rfl rfl fun hup => by cases hup
  | standDown => exact hinv.latches rfl rfl fun hup => by cases hup
  | loopState => exact hinv.latches rfl rfl fun hup => by cases hup
  | commitRollback | launch =>
      obtain ⟨hdown, hnone⟩ := hcalm
      refine ⟨fun hup => ?_, fun t pass hhand => ?_, hinv.fresh⟩
      · cases hdown.symm.trans hup
      · cases (hnone t).symm.trans hhand
  | unsynced | flushBegins | flushEnds | stopParsing | stopTimedOut =>
      exact hinv.latches rfl rfl fun hup => ⟨hup, rfl⟩

/-- **Readiness is never stale**, in every run whose rollback commits and launches find the latch
down and no listing in hand. -/
theorem readiness_never_stale (hreach : ReadinessReachable Unhurried s) : s.Earned := by
  have hinv : s.Inv := by
    refine Transition.Reachable.invariant ?_ ?_ hreach
    · rintro s rfl
      exact ⟨fun hup => (by cases hup), fun t pass hhand => (by cases hhand), fun t => trivial⟩
    · rintro s s' hinv ⟨event, hcalm, hstep⟩
      exact hinv.step hcalm hstep
  exact hinv.earned

/-- A pass over a listing of one transaction; then a stop, a relaunch and the rollback of a block, and
a second pass that earns readiness anew. -/
theorem readiness_never_stale_relaunched :
    ∃ s : Readiness (Fin 2), ReadinessReachable Unhurried s ∧ s.marks = ⟨1, 2⟩ ∧
      s.mempoolReconverged = true ∧ s.Earned := by
  have hinitial : ReadinessReachable Unhurried (initial : Readiness (Fin 2)) := .start rfl
  have hlaunched := hinitial.next ⟨.launch, ⟨rfl, fun _ => rfl⟩, .launch⟩
  have hreset := hlaunched.next ⟨.loopState, trivial, .loopState⟩
  have hpolled := hreset.next ⟨.pollAtChainTip 0, trivial, .pollAtChainTip (t := 0) rfl⟩
  have htaken := hpolled.next ⟨.takeListing 0 [7], trivial, .takeListing rfl⟩
  have hreceived := htaken.next ⟨.received 0, trivial, .received (t := 0) rfl⟩
  have hread := hreceived.next ⟨.tipsRead 0, trivial, .tipsRead (t := 0) rfl⟩
  have hpruned := hread.next ⟨.pruned 0 [], trivial, .pruned rfl⟩
  have hfetched := hpruned.next ⟨.fetched 0, trivial, .fetched (t := 0) rfl⟩
  have hraised := hfetched.next ⟨.batchStaged 0, trivial, .batchStaged (t := 0) rfl⟩
  have hstopped := hraised.next ⟨.standDown, trivial, .standDown⟩
  have hrelaunched := hstopped.next
    ⟨.launch, ⟨rfl, Fin.forall_fin_two.mpr ⟨rfl, rfl⟩⟩, .launch⟩
  have hreset := hrelaunched.next ⟨.loopState, trivial, .loopState⟩
  have hrolledBack := hreset.next
    ⟨.commitRollback, ⟨rfl, Fin.forall_fin_two.mpr ⟨rfl, rfl⟩⟩, .commitRollback⟩
  have hpolled := hrolledBack.next ⟨.pollAtChainTip 1, trivial, .pollAtChainTip (t := 1) rfl⟩
  have htaken := hpolled.next ⟨.takeListing 1 [], trivial, .takeListing rfl⟩
  have hreceived := htaken.next ⟨.received 1, trivial, .received (t := 1) rfl⟩
  have hread := hreceived.next ⟨.tipsRead 1, trivial, .tipsRead (t := 1) rfl⟩
  have hraised := hread.next ⟨.pruned 1 [], trivial, .pruned rfl⟩
  exact ⟨_, hraised, rfl, rfl, readiness_never_stale hraised⟩

/-- A rollback commits after a pass over an empty mempool: the walk has dropped `synced` alone, and
readiness is up by a listing older than the rollback. -/
theorem readiness_stale_after_rollback :
    ∃ s : Readiness (Fin 1), ReadinessReachable (fun _ _ => True) s ∧ ¬ s.Earned := by
  have hinitial : ReadinessReachable (fun _ _ => True) (initial : Readiness (Fin 1)) := .start rfl
  have hlaunched := hinitial.next ⟨_, trivial, .launch⟩
  have hreset := hlaunched.next ⟨_, trivial, .loopState⟩
  have hpolled := hreset.next ⟨_, trivial, .pollAtChainTip (t := 0) rfl⟩
  have htaken := hpolled.next ⟨.takeListing 0 [], trivial, .takeListing rfl⟩
  have hreceived := htaken.next ⟨_, trivial, .received (t := 0) rfl⟩
  have hread := hreceived.next ⟨_, trivial, .tipsRead (t := 0) rfl⟩
  have hraised := hread.next ⟨.pruned 0 [], trivial, .pruned rfl⟩
  have hwalking := hraised.next ⟨_, trivial, .unsynced⟩
  have hrolledBack := hwalking.next ⟨_, trivial, .commitRollback⟩
  refine ⟨_, hrolledBack, fun hearned => ?_⟩
  obtain ⟨pass, hby, hcurrent⟩ := hearned rfl
  have hstale := hcurrent.rollbacks
  obtain rfl := Option.some.inj hby
  exact absurd hstale (by decide)

end Readiness

end UtxoTracker

import UtxoTracker.Concurrency.StoreCommitLock
/-!
# The store-commit lock excludes and never forgets a waiter

For any number of calls and any interleaving of their steps: reads and commits do not overlap, a
claimed lock admits no new reader, and a parked call always has a section to wait for that will find
it on the waiters' list.
-/

namespace UtxoTracker

open LockState Stage

variable {τ : Type*} [DecidableEq τ] {s : LockState τ} {i j : τ}

/-! ### The invariant -/

/-- The counter counts the reading calls, the flag is up for the one call that claimed it, and nobody
reads under a commit. -/
structure LockCore (s : LockState τ) : Prop where
  readers : ∃ R : Finset τ, (∀ i, i ∈ R ↔ s.stage i = .reading) ∧ s.lock.readers = R.card
  writing : s.lock.writing = true ↔ ∃ i, (s.stage i).Claimed
  unique : ∀ i j, (s.stage i).Claimed → (s.stage j).Claimed → i = j
  alone : ∀ i, s.stage i = .committing → s.lock.readers = 0

/-- The lock's invariant: a parked call is on the list, and what it waits for is still there. -/
structure LockInv (s : LockState τ) : Prop extends LockCore s where
  listed : ∀ i, (s.stage i).Parked → i ∈ s.lock.waiters
  held : ∀ i, s.stage i = .parkedRead ∨ s.stage i = .parkedWrite → s.lock.writing = true
  draining : ∀ i, s.stage i = .draining → 0 < s.lock.readers

theorem Stage.wake_reading {stage : Stage} : stage.wake = .reading ↔ stage = .reading := by
  cases stage <;> simp [wake]

theorem Stage.wake_committing {stage : Stage} : stage.wake = .committing ↔ stage = .committing := by
  cases stage <;> simp [wake]

theorem Stage.wake_claimed {stage : Stage} : stage.wake.Claimed ↔ stage.Claimed := by
  cases stage <;> simp [wake, Claimed]

theorem Stage.not_parked_wake {stage : Stage} : ¬ stage.wake.Parked := by
  cases stage <;> simp [wake, Parked]

theorem Stage.parked_cases {stage : Stage} (hparked : stage.Parked) :
    stage = .parkedRead ∨ stage = .parkedWrite ∨ stage = .draining := by
  cases stage <;> simp_all [Parked]

omit [DecidableEq τ] in
/-- A reading call counts. -/
theorem LockCore.readers_pos (hcore : LockCore s) (hreading : s.stage i = .reading) :
    0 < s.lock.readers := by
  obtain ⟨R, hmem, hcard⟩ := hcore.readers
  rw [hcard]
  exact Finset.card_pos.mpr ⟨i, (hmem i).mpr hreading⟩

omit [DecidableEq τ] in
theorem LockCore.exists_reading (hcore : LockCore s) (hpos : 0 < s.lock.readers) :
    ∃ i, s.stage i = .reading := by
  obtain ⟨R, hmem, hcard⟩ := hcore.readers
  rw [hcard] at hpos
  obtain ⟨i, hi⟩ := Finset.card_pos.mp hpos
  exact ⟨i, (hmem i).mp hi⟩

/-! ### Waking -/

theorem wakeLockWaiters_stage (s : LockState τ) (i : τ) :
    (s.wakeLockWaiters.stage i = s.stage i ∧ i ∉ s.lock.waiters) ∨
      (s.wakeLockWaiters.stage i = (s.stage i).wake ∧ i ∈ s.lock.waiters) := by
  by_cases hmem : i ∈ s.lock.waiters <;> simp [wakeLockWaiters, hmem]

theorem wakeLockWaiters_reading : s.wakeLockWaiters.stage i = .reading ↔ s.stage i = .reading := by
  rcases wakeLockWaiters_stage s i with ⟨hstage, -⟩ | ⟨hstage, -⟩ <;> rw [hstage]
  exact wake_reading

theorem wakeLockWaiters_claimed :
    (s.wakeLockWaiters.stage i).Claimed ↔ (s.stage i).Claimed := by
  rcases wakeLockWaiters_stage s i with ⟨hstage, -⟩ | ⟨hstage, -⟩ <;> rw [hstage]
  exact wake_claimed

theorem wakeLockWaiters_committing :
    s.wakeLockWaiters.stage i = .committing ↔ s.stage i = .committing := by
  rcases wakeLockWaiters_stage s i with ⟨hstage, -⟩ | ⟨hstage, -⟩ <;> rw [hstage]
  exact wake_committing

/-- Waking everybody on a list that has all parked calls leaves none parked. -/
theorem LockCore.wakeLockWaiters (hcore : LockCore s)
    (hlisted : ∀ i, (s.stage i).Parked → i ∈ s.lock.waiters) : LockInv s.wakeLockWaiters := by
  have hnone : ∀ i, ¬ (s.wakeLockWaiters.stage i).Parked := by
    intro i hparked
    rcases wakeLockWaiters_stage s i with ⟨hstage, hmem⟩ | ⟨hstage, -⟩
    · exact hmem (hlisted i (hstage ▸ hparked))
    · exact not_parked_wake (hstage ▸ hparked)
  refine ⟨⟨?_, ?_, fun i j hi hj => ?_, fun i hi => ?_⟩, fun i hparked => absurd hparked (hnone i),
    fun i hparked => absurd ?_ (hnone i), fun i hparked => absurd ?_ (hnone i)⟩
  · obtain ⟨R, hmem, hcard⟩ := hcore.readers
    exact ⟨R, fun i => (hmem i).trans wakeLockWaiters_reading.symm, hcard⟩
  · exact hcore.writing.trans (exists_congr fun i => wakeLockWaiters_claimed.symm)
  · exact hcore.unique i j (wakeLockWaiters_claimed.mp hi) (wakeLockWaiters_claimed.mp hj)
  · exact hcore.alone i (wakeLockWaiters_committing.mp hi)
  · rcases hparked with hparked | hparked <;> rw [hparked] <;> trivial
  · rw [hparked]
    trivial

/-! ### Parking and moving one call -/

/-- A call that neither reads nor commits, and claims as much as before, may change its stage. -/
theorem LockCore.setStage {t : LockState τ} {stage : Stage} (hcore : LockCore s)
    (hstages : t.stage = Function.update s.stage i stage)
    (hreaders : t.lock.readers = s.lock.readers) (hwriting : t.lock.writing = s.lock.writing)
    (hbefore : s.stage i ≠ .reading) (hafter : stage ≠ .reading) (hcommit : stage ≠ .committing)
    (hclaimed : stage.Claimed ↔ (s.stage i).Claimed) : LockCore t := by
  have hother : ∀ j, j ≠ i → t.stage j = s.stage j := by
    intro j hne
    rw [hstages, Function.update_of_ne hne]
  have hself : t.stage i = stage := by rw [hstages, Function.update_self]
  have hclaims : ∀ j, (t.stage j).Claimed ↔ (s.stage j).Claimed := by
    intro j
    by_cases hj : j = i
    · subst hj
      rw [hself]
      exact hclaimed
    · rw [hother j hj]
  refine ⟨?_, ?_, fun i' j' hi hj => ?_, fun j hj => ?_⟩
  · obtain ⟨R, hmem, hcard⟩ := hcore.readers
    refine ⟨R, fun j => ?_, hreaders.trans hcard⟩
    by_cases hj : j = i
    · subst hj
      rw [hmem, hself]
      exact ⟨fun h => absurd h hbefore, fun h => absurd h hafter⟩
    · rw [hmem, hother j hj]
  · rw [hwriting, hcore.writing]
    exact exists_congr fun j => (hclaims j).symm
  · exact hcore.unique i' j' ((hclaims i').mp hi) ((hclaims j').mp hj)
  · have hne : j ≠ i := by
      rintro rfl
      exact hcommit (hself.symm.trans hj)
    rw [hreaders]
    exact hcore.alone j ((hother j hne).symm.trans hj)

/-- **Parking** a call that waits for something that is there. -/
theorem LockInv.waitForLockChange {parked : Stage} (hinv : LockInv s) (hbefore : s.stage i ≠ .reading)
    (hparked : parked.Parked) (hclaimed : parked.Claimed ↔ (s.stage i).Claimed)
    (hheld : parked ≠ .draining → s.lock.writing = true)
    (hdraining : parked = .draining → 0 < s.lock.readers) :
    LockInv (s.waitForLockChange i parked) := by
  have hself : (s.waitForLockChange i parked).stage i = parked := Function.update_self ..
  have hother : ∀ j, j ≠ i → (s.waitForLockChange i parked).stage j = s.stage j :=
    fun j hne => Function.update_of_ne hne ..
  have hcore : LockCore (s.waitForLockChange i parked) := by
    refine hinv.toLockCore.setStage rfl rfl rfl hbefore ?_ ?_ hclaimed <;>
    · rintro rfl
      exact hparked
  refine ⟨hcore, fun j hj => ?_, fun j hj => ?_, fun j hj => ?_⟩ <;> by_cases hji : j = i
  · subst hji
    exact List.mem_append_right _ (List.mem_singleton_self j)
  · rw [hother j hji] at hj
    exact List.mem_append_left _ (hinv.listed j hj)
  · subst hji
    rw [hself] at hj
    exact hheld (by rcases hj with rfl | rfl <;> simp)
  · rw [hother j hji] at hj
    exact hinv.held j hj
  · subst hji
    rw [hself] at hj
    exact hdraining hj
  · rw [hother j hji] at hj
    exact hinv.draining j hj

/-! ### The steps -/

/-- A reader arrives, or looks again. -/
theorem LockInv.enterRead (hinv : LockInv s) (hstage : s.stage i = .idle ∨ s.stage i = .wokenRead) :
    LockInv (s.enterRead i) := by
  have hnotReading : s.stage i ≠ .reading := by rcases hstage with h | h <;> simp [h]
  have hnotClaimed : ¬ (s.stage i).Claimed := by rcases hstage with h | h <;> simp [h, Claimed]
  unfold LockState.enterRead
  split
  · next hwriting =>
      exact hinv.waitForLockChange hnotReading trivial (iff_of_false id hnotClaimed)
        (fun _ => hwriting) fun h => by cases h
  next hfree =>
  let t : LockState τ := { s with lock := { s.lock with readers := s.lock.readers + 1 } }.setStage i
    .reading
  have hself : t.stage i = .reading := Function.update_self ..
  have hother : ∀ j, j ≠ i → t.stage j = s.stage j := fun j hne => Function.update_of_ne hne ..
  -- No writer, so nobody has claimed the lock and nobody waits for one who has.
  have hnobody : ∀ j, ¬ (t.stage j).Claimed := by
    intro j hj
    by_cases hji : j = i
    · subst hji
      rw [hself] at hj
      exact hj
    · rw [hother j hji] at hj
      exact hfree (hinv.writing.mpr ⟨j, hj⟩)
  have hparked : ∀ j, (t.stage j).Parked → (s.stage j).Parked ∧ t.stage j = s.stage j := by
    intro j hj
    by_cases hji : j = i
    · subst hji
      rw [hself] at hj
      exact hj.elim
    · rw [hother j hji] at hj ⊢
      exact ⟨hj, rfl⟩
  refine ⟨⟨?_, iff_of_false hfree ?_, fun j _ hj => absurd hj (hnobody j), fun j hj => ?_⟩,
    fun j hj => hinv.listed j (hparked j hj).1, fun j hj => ?_, fun j hj => ?_⟩
  · obtain ⟨R, hmem, hcard⟩ := hinv.readers
    have hnew : i ∉ R := fun h => hnotReading ((hmem i).mp h)
    refine ⟨insert i R, fun j => ?_, ?_⟩
    · change j ∈ insert i R ↔ t.stage j = .reading
      by_cases hji : j = i
      · subst hji
        simp [hself]
      · rw [Finset.mem_insert, hother j hji, hmem]
        exact or_iff_right hji
    · change s.lock.readers + 1 = _
      rw [Finset.card_insert_of_notMem hnew, hcard]
  · rintro ⟨j, hj⟩
    exact hnobody j hj
  · exact absurd (show (t.stage j).Claimed from hj ▸ trivial) (hnobody j)
  · have hstage' := (hparked j (show (t.stage j).Parked by rcases hj with h | h <;> rw [h] <;> trivial)).2
    rw [show (t.stage j) = s.stage j from hstage'] at hj
    exact absurd (hinv.held j hj) hfree
  · exact absurd (show (t.stage j).Claimed from hj ▸ trivial) (hnobody j)

/-- A reader leaves. -/
theorem LockInv.leaveRead (hinv : LockInv s) (hstage : s.stage i = .reading) (outcome : Outcome) :
    LockInv (s.leaveRead i outcome) := by
  have hpos := hinv.readers_pos hstage
  have hself : ∀ {t : LockState τ}, (t.setStage i (.finished outcome)).stage i = .finished outcome :=
    Function.update_self ..
  have hother : ∀ {t : LockState τ} {j}, j ≠ i →
      (t.setStage i (.finished outcome)).stage j = t.stage j := fun hne => Function.update_of_ne hne ..
  have hnotClaimed : ¬ (s.stage i).Claimed := by simp [hstage, Claimed]
  let t : LockState τ := { s with lock := { s.lock with readers := s.lock.readers - 1 } }.setStage i
    (.finished outcome)
  have hclaims : ∀ j, (t.stage j).Claimed ↔ (s.stage j).Claimed := by
    intro j
    by_cases hji : j = i
    · subst hji
      rw [show t.stage j = .finished outcome from hself]
      exact iff_of_false id hnotClaimed
    · rw [show t.stage j = s.stage j from hother hji]
  have hcore : LockCore t := by
    refine ⟨?_, ?_, fun j k hj hk => ?_, fun j hj => ?_⟩
    · obtain ⟨R, hmem, hcard⟩ := hinv.readers
      refine ⟨R.erase i, fun j => ?_, ?_⟩
      · by_cases hji : j = i
        · subst hji
          simp [t, hself]
        · rw [Finset.mem_erase, show t.stage j = s.stage j from hother hji, hmem]
          exact and_iff_right hji
      · change s.lock.readers - 1 = _
        rw [Finset.card_erase_of_mem ((hmem i).mpr hstage), hcard]
    · exact hinv.writing.trans (exists_congr fun j => (hclaims j).symm)
    · exact hinv.unique j k ((hclaims j).mp hj) ((hclaims k).mp hk)
    · by_cases hji : j = i
      · subst hji
        rw [show t.stage j = .finished outcome from hself] at hj
        cases hj
      · rw [show t.stage j = s.stage j from hother hji] at hj
        have := hinv.alone j hj
        omega
  have hlisted : ∀ j, (t.stage j).Parked → j ∈ t.lock.waiters := by
    intro j hj
    by_cases hji : j = i
    · subst hji
      rw [show t.stage j = .finished outcome from hself] at hj
      exact hj.elim
    · rw [show t.stage j = s.stage j from hother hji] at hj
      exact hinv.listed j hj
  change LockInv (if t.lock.readers = 0 then t.wakeLockWaiters else t)
  split
  · exact hcore.wakeLockWaiters hlisted
  next hmore =>
  refine ⟨hcore, hlisted, fun j hj => ?_, fun _ _ => Nat.pos_of_ne_zero hmore⟩
  have hji : j ≠ i := by
    rintro rfl
    rw [show t.stage j = .finished outcome from hself] at hj
    rcases hj with hj | hj <;> cases hj
  rw [show t.stage j = s.stage j from hother hji] at hj
  exact hinv.held j hj

/-- What `drain` does: the call commits when nobody reads, and waits on the list otherwise. -/
theorem drain_spec (s : LockState τ) (i : τ) :
    ∃ stage, (s.drain i).stage = Function.update s.stage i stage ∧
      (s.drain i).lock.readers = s.lock.readers ∧ (s.drain i).lock.writing = s.lock.writing ∧
      (∀ j ∈ s.lock.waiters, j ∈ (s.drain i).lock.waiters) ∧
      (stage = .draining ∧ 0 < s.lock.readers ∧ i ∈ (s.drain i).lock.waiters ∨
        stage = .committing ∧ s.lock.readers = 0) := by
  unfold LockState.drain
  split
  · next hpos =>
      exact ⟨.draining, rfl, rfl, rfl, fun j hj => List.mem_append_left _ hj,
        Or.inl ⟨rfl, hpos, List.mem_append_right _ (List.mem_singleton_self i)⟩⟩
  · next hzero =>
      exact ⟨.committing, rfl, rfl, rfl, fun j hj => hj, Or.inr ⟨rfl, Nat.eq_zero_of_not_pos hzero⟩⟩

/-- The one call that holds the flag commits, or waits for the readers. -/
theorem lockInv_drain (hreaders : ∃ R : Finset τ, (∀ i, i ∈ R ↔ s.stage i = .reading) ∧
      s.lock.readers = R.card) (hwriting : s.lock.writing = true)
    (honly : ∀ j, (s.stage j).Claimed → j = i) (hbefore : s.stage i ≠ .reading)
    (hlisted : ∀ j, (s.stage j).Parked → j ∈ s.lock.waiters) : LockInv (s.drain i) := by
  obtain ⟨stage, hstages, hcount, hflag, hsub, hstage⟩ := drain_spec s i
  have hself : (s.drain i).stage i = stage := by rw [hstages, Function.update_self]
  have hother : ∀ j, j ≠ i → (s.drain i).stage j = s.stage j := by
    intro j hne
    rw [hstages, Function.update_of_ne hne]
  have hclaimed : stage.Claimed ∧ stage ≠ .reading := by
    rcases hstage with ⟨rfl, -⟩ | ⟨rfl, -⟩ <;> exact ⟨trivial, by simp⟩
  have honly' : ∀ j, ((s.drain i).stage j).Claimed → j = i := by
    intro j hj
    by_contra hne
    rw [hother j hne] at hj
    exact hne (honly j hj)
  refine ⟨⟨?_, iff_of_true (hflag.trans hwriting) ⟨i, hself ▸ hclaimed.1⟩, fun j k hj hk => ?_,
    fun j hj => ?_⟩, fun j hj => ?_, fun _ _ => hflag.trans hwriting, fun j hj => ?_⟩
  · obtain ⟨R, hmem, hcard⟩ := hreaders
    refine ⟨R, fun j => ?_, hcount.trans hcard⟩
    by_cases hji : j = i
    · subst hji
      rw [hmem, hself]
      exact iff_of_false hbefore hclaimed.2
    · rw [hmem, hother j hji]
  · rw [honly' j hj, honly' k hk]
  · obtain rfl := honly' j (hj ▸ trivial)
    rcases hstage with ⟨rfl, -⟩ | ⟨-, hzero⟩
    · cases hself.symm.trans hj
    · exact hcount.trans hzero
  · by_cases hji : j = i
    · subst hji
      rcases hstage with ⟨-, -, hmine⟩ | ⟨rfl, -⟩
      · exact hmine
      · rw [hself] at hj
        exact hj.elim
    · rw [hother j hji] at hj
      exact hsub j (hlisted j hj)
  · obtain rfl := honly' j (hj ▸ trivial)
    rcases hstage with ⟨-, hpos, -⟩ | ⟨rfl, -⟩
    · rwa [hcount]
    · cases hself.symm.trans hj

/-- A writer arrives, or looks again. -/
theorem LockInv.claim (hinv : LockInv s) (hstage : s.stage i = .idle ∨ s.stage i = .wokenWrite) :
    LockInv (s.claim i) := by
  have hnotReading : s.stage i ≠ .reading := by rcases hstage with h | h <;> simp [h]
  have hnotClaimed : ¬ (s.stage i).Claimed := by rcases hstage with h | h <;> simp [h, Claimed]
  unfold LockState.claim
  split
  · next hwriting =>
      exact hinv.waitForLockChange hnotReading trivial (iff_of_false id hnotClaimed)
        (fun _ => hwriting) fun h => by cases h
  · next hfree =>
      exact lockInv_drain hinv.readers rfl (fun j hj => absurd (hinv.writing.mpr ⟨j, hj⟩) hfree)
        hnotReading hinv.listed

/-- The writer looks at the counter again. -/
theorem LockInv.drain (hinv : LockInv s) (hstage : s.stage i = .wokenDrain) :
    LockInv (s.drain i) := by
  have hclaimed : (s.stage i).Claimed := by
    rw [hstage]
    trivial
  exact lockInv_drain hinv.readers (hinv.writing.mpr ⟨i, hclaimed⟩)
    (fun j hj => hinv.unique j i hj hclaimed) (by simp [hstage]) hinv.listed

/-- A writer finishes. -/
theorem LockInv.release (hinv : LockInv s) (hstage : s.stage i = .committing) (outcome : Outcome) :
    LockInv (s.release i outcome) := by
  have hclaimed : (s.stage i).Claimed := by
    rw [hstage]
    trivial
  let t : LockState τ := { s with lock := { s.lock with writing := false } }.setStage i
    (.finished outcome)
  have hself : t.stage i = .finished outcome := Function.update_self ..
  have hother : ∀ j, j ≠ i → t.stage j = s.stage j := fun j hne => Function.update_of_ne hne ..
  have hnobody : ∀ j, ¬ (t.stage j).Claimed := by
    intro j hj
    by_cases hji : j = i
    · subst hji
      rw [hself] at hj
      exact hj
    · rw [hother j hji] at hj
      exact hji (hinv.unique j i hj hclaimed)
  refine LockCore.wakeLockWaiters (s := t) ⟨?_, iff_of_false (by simp [t, setStage]) ?_, ?_, ?_⟩ ?_
  · obtain ⟨R, hmem, hcard⟩ := hinv.readers
    refine ⟨R, fun j => ?_, hcard⟩
    by_cases hji : j = i
    · subst hji
      rw [hmem, hself, hstage]
      simp
    · rw [hmem, hother j hji]
  · rintro ⟨j, hj⟩
    exact hnobody j hj
  · exact fun j _ hj => absurd hj (hnobody j)
  · exact fun j hj => absurd (show (t.stage j).Claimed by rw [hj]; trivial) (hnobody j)
  · intro j hj
    have hji : j ≠ i := by
      rintro rfl
      rw [hself] at hj
      exact hj
    rw [hother j hji] at hj
    exact hinv.listed j hj

/-- **The step lemma.** -/
theorem LockInv.step {s' : LockState τ} (hinv : LockInv s) (hstep : LockStep s s') :
    LockInv s' := by
  cases hstep with
  | callRead hstage => exact hinv.enterRead (Or.inl hstage)
  | resumeRead hstage => exact hinv.enterRead (Or.inr hstage)
  | endRead hstage outcome => exact hinv.leaveRead hstage outcome
  | callWrite hstage => exact hinv.claim (Or.inl hstage)
  | resumeWrite hstage => exact hinv.claim (Or.inr hstage)
  | resumeDrain hstage => exact hinv.drain hstage
  | endWrite hstage outcome => exact hinv.release hstage outcome

omit [DecidableEq τ] in
theorem lockInv_initial : LockInv (LockState.initial : LockState τ) := by
  refine ⟨⟨⟨∅, fun i => ?_, rfl⟩, ?_, fun i j hi => ?_, fun i hi => ?_⟩, fun i hi => ?_, fun i hi => ?_,
    fun i hi => ?_⟩ <;> simp_all [LockState.initial, Claimed, Parked]

theorem lockReachable_initial : LockReachable (LockState.initial : LockState τ) :=
  .start rfl

/-- **The run lemma.** -/
theorem LockInv.reachable (hreach : LockReachable s) : LockInv s :=
  hreach.invariant (fun _ hinit => hinit ▸ lockInv_initial) fun _ _ hinv hstep => hinv.step hstep

/-! ### What one step does to the calls -/

/-- How the call that runs moves. -/
inductive Moves (s s' : LockState τ) (i : τ) : Prop where
  | parkRead (hbefore : s.stage i = .idle ∨ s.stage i = .wokenRead)
      (hafter : s'.stage i = .parkedRead)
  | enterRead (hbefore : s.stage i = .idle ∨ s.stage i = .wokenRead)
      (hfree : s.lock.writing = false) (hafter : s'.stage i = .reading)
  | leaveRead (hbefore : s.stage i = .reading) (hafter : ∃ outcome, s'.stage i = .finished outcome)
  | parkWrite (hbefore : s.stage i = .idle ∨ s.stage i = .wokenWrite)
      (hafter : s'.stage i = .parkedWrite)
  | claim (hbefore : s.stage i = .idle ∨ s.stage i = .wokenWrite ∨ s.stage i = .wokenDrain)
      (hafter : s'.stage i = .draining ∨ s'.stage i = .committing)
  | release (hbefore : s.stage i = .committing) (hafter : ∃ outcome, s'.stage i = .finished outcome)

theorem wakeLockWaiters_finished {outcome : Outcome} (hstage : s.stage i = .finished outcome) :
    s.wakeLockWaiters.stage i = .finished outcome := by
  rcases wakeLockWaiters_stage s i with ⟨h, -⟩ | ⟨h, -⟩ <;> rw [h, hstage]
  rfl

/-- **What a step does**: one call moves, and others are at most woken. -/
theorem LockStep.moves {s' : LockState τ} (hstep : LockStep s s') :
    ∃ i, Moves s s' i ∧
      ∀ j, j ≠ i → s'.stage j = s.stage j ∨ s'.stage j = (s.stage j).wake := by
  have hsame : ∀ {i : τ} {stage : Stage} {j : τ}, j ≠ i →
      Function.update s.stage i stage j = s.stage j ∨
        Function.update s.stage i stage j = (s.stage j).wake :=
    fun hne => Or.inl (Function.update_of_ne hne ..)
  have hdrain : ∀ i, s.stage i = .idle ∨ s.stage i = .wokenWrite ∨ s.stage i = .wokenDrain →
      ∀ lock, Moves s (LockState.drain { s with lock } i) i ∧ ∀ j, j ≠ i →
        (LockState.drain { s with lock } i).stage j = s.stage j ∨
          (LockState.drain { s with lock } i).stage j = (s.stage j).wake := by
    intro i hbefore lock
    obtain ⟨stage, hstages, -, -, -, hstage⟩ := drain_spec { s with lock } i
    rw [hstages]
    refine ⟨.claim hbefore ?_, fun j hne => hsame hne⟩
    rw [hstages, Function.update_self]
    exact hstage.imp And.left And.left
  have hread : ∀ i, s.stage i = .idle ∨ s.stage i = .wokenRead →
      Moves s (s.enterRead i) i ∧
        ∀ j, j ≠ i → (s.enterRead i).stage j = s.stage j ∨
          (s.enterRead i).stage j = (s.stage j).wake := by
    intro i hbefore
    unfold LockState.enterRead
    split
    · exact ⟨.parkRead hbefore (Function.update_self ..), fun j hne => hsame hne⟩
    · next hfree =>
        exact ⟨.enterRead hbefore (Bool.eq_false_iff.mpr hfree) (Function.update_self ..),
          fun j hne => hsame hne⟩
  have hwrite : ∀ i, s.stage i = .idle ∨ s.stage i = .wokenWrite →
      Moves s (s.claim i) i ∧
        ∀ j, j ≠ i → (s.claim i).stage j = s.stage j ∨ (s.claim i).stage j = (s.stage j).wake := by
    intro i hbefore
    unfold LockState.claim
    split
    · exact ⟨.parkWrite hbefore (Function.update_self ..), fun j hne => hsame hne⟩
    · exact hdrain i (hbefore.imp_right Or.inl) _
  -- Leaving wakes the waiters or nobody; the call that leaves is not waiting.
  have hwake : ∀ {t : LockState τ} {i : τ} {outcome : Outcome},
      t.stage = Function.update s.stage i (.finished outcome) →
      t.wakeLockWaiters.stage i = .finished outcome ∧ ∀ j, j ≠ i →
        t.wakeLockWaiters.stage j = s.stage j ∨
          t.wakeLockWaiters.stage j = (s.stage j).wake := by
    intro t i outcome hstages
    refine ⟨wakeLockWaiters_finished (by rw [hstages, Function.update_self]), fun j hne => ?_⟩
    have hj : t.stage j = s.stage j := by rw [hstages, Function.update_of_ne hne]
    rcases wakeLockWaiters_stage t j with ⟨h, -⟩ | ⟨h, -⟩ <;> rw [h, hj]
    · exact Or.inl rfl
    · exact Or.inr rfl
  cases hstep with
  | callRead hstage => exact ⟨_, hread _ (Or.inl hstage)⟩
  | resumeRead hstage => exact ⟨_, hread _ (Or.inr hstage)⟩
  | callWrite hstage => exact ⟨_, hwrite _ (Or.inl hstage)⟩
  | resumeWrite hstage => exact ⟨_, hwrite _ (Or.inr hstage)⟩
  | resumeDrain hstage => exact ⟨_, hdrain _ (Or.inr (Or.inr hstage)) s.lock⟩
  | @endRead i hstage outcome =>
      refine ⟨i, ?_⟩
      unfold LockState.leaveRead
      dsimp only
      split
      · obtain ⟨hself, hother⟩ := hwake (t := LockState.setStage _ i (.finished outcome)) rfl
        exact ⟨.leaveRead hstage ⟨outcome, hself⟩, hother⟩
      · exact ⟨.leaveRead hstage ⟨outcome, Function.update_self ..⟩, fun j hne => hsame hne⟩
  | @endWrite i hstage outcome =>
      obtain ⟨hself, hother⟩ := hwake (t := LockState.setStage _ i (.finished outcome)) rfl
      exact ⟨i, .release hstage ⟨outcome, hself⟩, hother⟩

/-- **No new reader**: a step from a state with a claimed lock lets nobody in. -/
theorem LockInv.no_new_reader {s' : LockState τ} {w : τ} (hinv : LockInv s)
    (hclaimed : (s.stage w).Claimed) (hstep : LockStep s s') (hreading : s'.stage i = .reading) :
    s.stage i = .reading := by
  obtain ⟨k, hmoves, hother⟩ := hstep.moves
  by_cases hik : i = k
  · subst hik
    have hwriting := hinv.writing.mpr ⟨w, hclaimed⟩
    cases hmoves with
    | enterRead _ hfree _ => simp [hfree] at hwriting
    | parkRead _ hafter | parkWrite _ hafter => cases hafter.symm.trans hreading
    | claim _ hafter => rcases hafter with h | h <;> cases h.symm.trans hreading
    | leaveRead _ hafter | release _ hafter =>
        obtain ⟨outcome, hafter⟩ := hafter
        cases hafter.symm.trans hreading
  · rcases hother i hik with h | h
    · exact h.symm.trans hreading
    · exact wake_reading.mp (h.symm.trans hreading)

/-- A claimed lock stays claimed until its writer finishes. -/
theorem LockStep.claimed {s' : LockState τ} {w : τ} (hstep : LockStep s s')
    (hclaimed : (s.stage w).Claimed) :
    (s'.stage w).Claimed ∨ ∃ outcome, s'.stage w = .finished outcome := by
  obtain ⟨k, hmoves, hother⟩ := hstep.moves
  by_cases hwk : w = k
  · subst hwk
    cases hmoves with
    | parkRead hbefore _ | enterRead hbefore _ _ | parkWrite hbefore _ =>
        rcases hbefore with h | h <;> rw [h] at hclaimed <;> exact hclaimed.elim
    | leaveRead hbefore _ =>
        rw [hbefore] at hclaimed
        exact hclaimed.elim
    | claim _ hafter => exact Or.inl (by rcases hafter with h | h <;> rw [h] <;> trivial)
    | release _ hafter => exact Or.inr hafter
  · rcases hother w hwk with h | h
    · exact Or.inl (h ▸ hclaimed)
    · exact Or.inl (h ▸ wake_claimed.mpr hclaimed)

/-- A finished call is never run again. -/
theorem LockStep.finished {s' : LockState τ} {w : τ} {outcome : Outcome} (hstep : LockStep s s')
    (hfinished : s.stage w = .finished outcome) : s'.stage w = .finished outcome := by
  obtain ⟨k, hmoves, hother⟩ := hstep.moves
  by_cases hwk : w = k
  · subst hwk
    cases hmoves with
    | parkRead hbefore _ | enterRead hbefore _ _ | parkWrite hbefore _ =>
        rcases hbefore with h | h <;> cases h.symm.trans hfinished
    | claim hbefore _ => rcases hbefore with h | h | h <;> cases h.symm.trans hfinished
    | leaveRead hbefore _ | release hbefore _ => cases hbefore.symm.trans hfinished
  · rcases hother w hwk with h | h <;> rw [h, hfinished]
    rfl

/-- A reader stays inside until it finishes. -/
theorem LockStep.reading {s' : LockState τ} (hstep : LockStep s s')
    (hreading : s.stage i = .reading) :
    s'.stage i = .reading ∨ ∃ outcome, s'.stage i = .finished outcome := by
  obtain ⟨k, hmoves, hother⟩ := hstep.moves
  by_cases hik : i = k
  · subst hik
    cases hmoves with
    | parkRead hbefore _ | enterRead hbefore _ _ | parkWrite hbefore _ =>
        rcases hbefore with h | h <;> cases h.symm.trans hreading
    | claim hbefore _ => rcases hbefore with h | h | h <;> cases h.symm.trans hreading
    | leaveRead _ hafter => exact Or.inr hafter
    | release hbefore _ => cases hbefore.symm.trans hreading
  · rcases hother i hik with h | h
    · exact Or.inl (h.trans hreading)
    · rw [hreading] at h
      exact Or.inl h

/-- Along a run, while one writer holds the lock, the readers only get fewer. -/
theorem LockReachable.no_new_reader {s' : LockState τ} {w : τ} (hreach : LockReachable s)
    (hclaimed : (s.stage w).Claimed) (hrun : Relation.ReflTransGen LockStep s s')
    (hstill : (s'.stage w).Claimed) (hreading : s'.stage i = .reading) : s.stage i = .reading := by
  have hall : (∃ outcome, s'.stage w = .finished outcome) ∨
      (s'.stage w).Claimed ∧ ∀ i, s'.stage i = .reading → s.stage i = .reading := by
    clear hstill hreading
    induction hrun with
    | refl => exact Or.inr ⟨hclaimed, fun _ hreading => hreading⟩
    | @tail t t' hrun hstep ih =>
        rcases ih with ⟨outcome, hfinished⟩ | ⟨hclaimed', hreaders⟩
        · exact Or.inl ⟨outcome, hstep.finished hfinished⟩
        · have hinv := LockInv.reachable (hreach.trans hrun)
          exact (hstep.claimed hclaimed').symm.imp id fun hnext =>
            ⟨hnext, fun i hreading => hreaders i (hinv.no_new_reader hclaimed' hstep hreading)⟩
  rcases hall with ⟨outcome, hfinished⟩ | ⟨-, hreaders⟩
  · rw [hfinished] at hstill
    exact hstill.elim
  · exact hreaders i hreading

/-! ### The lock is correct -/

/-- **The store-commit lock is correct.** In every state of every run, whatever its sections return or
throw: no read overlaps a commit, and no two commits overlap; while a writer holds the lock, from the
moment it claimed it until it finishes, no new reader enters; and a parked call is on the waiters'
list, behind a section that is still pending or active. A parked reader or writer waits for another
writer's section, a draining writer for a read. -/
theorem store_commit_lock_correct (hreach : LockReachable s) :
    (∀ i j, s.stage i = .reading → s.stage j ≠ .committing) ∧
    (∀ i j, s.stage i = .committing → s.stage j = .committing → i = j) ∧
    (∀ (w : τ) (s' : LockState τ), (s.stage w).Claimed → Relation.ReflTransGen LockStep s s' →
      (s'.stage w).Claimed → ∀ i, s'.stage i = .reading → s.stage i = .reading) ∧
    ∀ i, (s.stage i).Parked → i ∈ s.lock.waiters ∧
      if s.stage i = .draining then ∃ r, s.stage r = .reading
      else ∃ w, w ≠ i ∧ (s.stage w).Claimed := by
  have hinv := LockInv.reachable hreach
  refine ⟨fun i j hreading hcommitting => ?_, fun i j hi hj => ?_,
    fun w s' hclaimed hrun hstill i => hreach.no_new_reader hclaimed hrun hstill,
    fun i hparked => ⟨hinv.listed i hparked, ?_⟩⟩
  · have hpos := hinv.readers_pos hreading
    rw [hinv.alone j hcommitting] at hpos
    exact absurd hpos (lt_irrefl 0)
  · exact hinv.unique i j (hi ▸ trivial) (hj ▸ trivial)
  · split
    · next hdraining => exact hinv.exists_reading (hinv.draining i hdraining)
    next hother =>
    have hwaits : s.stage i = .parkedRead ∨ s.stage i = .parkedWrite := by
      rcases parked_cases hparked with h | h | h
      · exact Or.inl h
      · exact Or.inr h
      · exact absurd h hother
    obtain ⟨w, hclaimed⟩ := hinv.writing.mp (hinv.held i hwaits)
    refine ⟨w, ?_, hclaimed⟩
    rintro rfl
    rcases hwaits with h | h <;> rw [h] at hclaimed <;> exact hclaimed.elim

/-- Two readers in, a writer that claimed the lock and a third reader parked behind it: the reader is on
the list and the writer is the section it waits for. -/
theorem store_commit_lock_correct_parked :
    ∃ s : LockState (Fin 4), s.stage 2 = .draining ∧ s.stage 3 = .parkedRead ∧
      3 ∈ s.lock.waiters ∧ (∃ w, w ≠ 3 ∧ (s.stage w).Claimed) ∧ ∃ r, s.stage r = .reading := by
  have hreach : LockReachable ((((LockState.initial.enterRead 0).enterRead 1).claim 2).enterRead 3 :
      LockState (Fin 4)) :=
    lockReachable_initial.next (LockStep.callRead (i := 0) (by decide))
      |>.next (LockStep.callRead (i := 1) (by decide))
      |>.next (LockStep.callWrite (i := 2) (by decide))
      |>.next (LockStep.callRead (i := 3) (by decide))
  obtain ⟨-, -, -, hparked⟩ := store_commit_lock_correct hreach
  have hdraining : ((((LockState.initial.enterRead 0).enterRead 1).claim 2).enterRead 3 :
      LockState (Fin 4)).stage 2 = .draining := by decide
  have hread : ((((LockState.initial.enterRead 0).enterRead 1).claim 2).enterRead 3 :
      LockState (Fin 4)).stage 3 = .parkedRead := by decide
  obtain ⟨hlisted, hclaimed⟩ := hparked 3 (hread ▸ trivial)
  obtain ⟨-, hreading⟩ := hparked 2 (hdraining ▸ trivial)
  rw [if_neg (by rw [hread]; simp)] at hclaimed
  rw [if_pos hdraining] at hreading
  exact ⟨_, hdraining, hread, hlisted, hclaimed, hreading⟩

end UtxoTracker

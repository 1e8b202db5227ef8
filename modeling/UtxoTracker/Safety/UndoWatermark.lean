import UtxoTracker.Proof.Watermark
/-!
# The undo-window watermark

The `Q` record is the deepest window the store has committed, up to `undoBlocks`, in every run that
never walks back from a batch with a staged `Q`. Such a discard loses the record but not the tracker's
memory of having written it.
-/

namespace UtxoTracker

open KeyedStore LevelUpStore Provenance Tracker

/-! ### The deepest window -/

/-- The number of blocks in the committed window. -/
def storedWindow (s : Sys) : Nat := s.tracker.db.getLastStoredBlocks.length

/-- A tracker, and beside it the deepest window its store ever committed. -/
structure MarkedSys where
  sys : Sys
  deepest : Nat

/-- A start on an empty path or after a bulk load. -/
structure MarkedInit (undoBlocks : Nat) (m : MarkedSys) : Prop where
  start : FromStore m.sys
  size : m.sys.tracker.undoBlocks = undoBlocks
  deepest : m.deepest = storedWindow m.sys

/-- A step at one window size. -/
structure MarkedStep (undoBlocks : Nat) (m m' : MarkedSys) : Prop where
  step : Step m.sys m'.sys
  size : m'.sys.tracker.undoBlocks = undoBlocks
  deepest : m'.deepest = max m.deepest (storedWindow m'.sys)

/-- The step walks back from a batch that holds a `Q` record. -/
def DropsStagedMark (s s' : Sys) : Prop :=
  s.phase = .idle ∧ (s'.phase = .recovering ∨ ∃ w, s'.phase = .walking .mismatch w) ∧
    s.tracker.db.staged .undoWatermark ≠ none

/-- A step that drops no staged `Q`. -/
def KeepingStep (undoBlocks : Nat) (m m' : MarkedSys) : Prop :=
  MarkedStep undoBlocks m m' ∧ ¬ DropsStagedMark m.sys m'.sys

theorem Durable.storedWindow {p : Provenance} {s : Sys} {depth : Nat}
    (hdurable : Durable p s.chain depth s.tracker.db.db) : storedWindow s = depth := by
  have hperm : s.tracker.db.getLastStoredBlocks.Perm (windowOf s.chain depth) :=
    (List.perm_ext_iff_of_nodup getLastStoredBlocks_nodup
      (hdurable.valid.windowOf_nodup depth)).mpr fun _ => hdurable.mem_getLastStoredBlocks
  rw [UtxoTracker.storedWindow, hperm.length_eq, windowOf_length hdurable.depth_le]

/-! ### The invariant -/

section Run

variable {u depth depth' : Nat} {m m' : MarkedSys} {s' : Sys} {b : Block} {t : Tracker}

/-- The tracker's memory agrees with the disk. -/
structure SettledMark (u : Nat) (m : MarkedSys) : Prop where
  memory : m.sys.tracker.undoWindowWatermark = min u m.deepest
  persisted : ∀ n, m.sys.tracker.undoWindowWatermarkPersisted = some n →
    m.sys.db[Key.undoWatermark]? = some (.decimalText n)

/-- The tracker's memory agrees with what the open batch shows. -/
structure BatchMark (u depth : Nat) (m : MarkedSys) : Prop where
  kept : m.sys.tracker.lastBlocks.length = min u (depth + m.sys.staged.length)
  memory : m.sys.tracker.undoWindowWatermark = min u (max m.deepest (depth + m.sys.staged.length))
  persisted : m.sys.tracker.undoWindowWatermarkPersisted =
    some m.sys.tracker.undoWindowWatermark
  shown : m.sys.tracker.db.effective .undoWatermark =
    some (.decimalText m.sys.tracker.undoWindowWatermark)

structure MarkedInv (u : Nat) (m : MarkedSys) (depth : Nat) : Prop where
  inv : InvAt m.sys depth
  size : m.sys.tracker.undoBlocks = u
  deepest : depth ≤ m.deepest
  disk : min u (storedMark m.sys.db[Key.undoWatermark]?) = min u m.deepest
  settled : m.sys.staged = [] → SettledMark u m
  batch : m.sys.staged ≠ [] → BatchMark u depth m
  flushed : m.sys.phase = .flushed →
    m.sys.db[Key.undoWatermark]? = some (.decimalText (min u m.deepest))

/-- A batch with no staged `Q` shows the record on disk. -/
theorem MarkedInv.settled_of_unstaged (hinv : MarkedInv u m depth)
    (hunstaged : m.sys.tracker.db.staged .undoWatermark = none) : SettledMark u m := by
  by_cases hstaged : m.sys.staged = []
  · exact hinv.settled hstaged
  · obtain ⟨-, hmemory, hpersisted, hshown⟩ := hinv.batch hstaged
    rw [effective, hunstaged, overlay_none] at hshown
    have hdisk := hinv.disk
    rw [Sys.db, hshown, storedMark] at hdisk
    refine ⟨?_, fun n hn => ?_⟩
    · omega
    · rw [hpersisted, Option.some.injEq] at hn
      rw [Sys.db, hshown, hn]

/-- A step after which nothing is staged, the mark is as it was and the window no deeper. -/
theorem MarkedInv.settle (hinv : MarkedInv u m depth) (hmark : SettledMark u m)
    (hkeeps : KeepsMark m.sys.tracker m'.sys.tracker) (hinv' : InvAt m'.sys depth')
    (hle : depth' ≤ depth) (hstaged : m'.sys.staged = []) (hphase : m'.sys.phase ≠ .flushed)
    (hstep : MarkedStep u m m') : MarkedInv u m' depth' := by
  have hdeepest : m'.deepest = m.deepest := by
    rw [hstep.deepest, hinv'.durable.storedWindow]
    exact max_eq_left (hle.trans hinv.deepest)
  have hrecord : m'.sys.db[Key.undoWatermark]? = m.sys.db[Key.undoWatermark]? := hkeeps.record
  refine ⟨hinv', hstep.size, hdeepest ▸ hle.trans hinv.deepest, ?_, fun _ => ⟨?_, fun n hn => ?_⟩,
    fun hne => absurd hstaged hne, fun hflushed => absurd hflushed hphase⟩
  · rw [hrecord, hdeepest]
    exact hinv.disk
  · rw [hkeeps.watermark, hdeepest]
    exact hmark.memory
  · rw [hrecord]
    exact hmark.persisted n (hkeeps.persisted.symm.trans hn)

/-! ### Staging and flushing -/

/-- The window in memory before the next block: what is stored, or what the batch keeps. -/
theorem MarkedInv.lastBlocks_length (hinv : MarkedInv u m depth) (hphase : m.sys.phase = .idle) :
    min u (m.sys.tracker.lastBlocks.length + 1) = min u (depth + m.sys.staged.length + 1) := by
  by_cases hstaged : m.sys.staged = []
  · obtain ⟨kept, hwindow, hkept⟩ := (hinv.inv.idle hphase).window
    rw [if_pos hstaged] at hkept
    have hlast := hwindow.last
    rw [Sys.full_of_staged_nil hstaged, hkept] at hlast
    rw [hlast, List.length_reverse, windowOf_length hinv.inv.durable.depth_le, hstaged,
      List.length_nil, Nat.add_zero]
  · rw [(hinv.batch hstaged).kept]
    omega

/-- The watermark after one more block. -/
theorem MarkedInv.mark_after (hinv : MarkedInv u m depth) (hphase : m.sys.phase = .idle)
    (hash : Hash) :
    pushedMark m.sys.tracker hash =
      min u (max m.deepest (depth + m.sys.staged.length + 1)) := by
  have hlength := hinv.lastBlocks_length hphase
  have hmemory : m.sys.tracker.undoWindowWatermark =
      min u (max m.deepest (depth + m.sys.staged.length)) := by
    by_cases hstaged : m.sys.staged = []
    · rw [(hinv.settled hstaged).memory, hstaged, List.length_nil, Nat.add_zero,
        max_eq_left hinv.deepest]
    · exact (hinv.batch hstaged).memory
  rw [pushedMark, hmemory, hinv.size]
  simp only [List.length_drop, List.length_append, List.length_singleton]
  omega

/-- What the store the next block is staged on shows. -/
theorem MarkedInv.base_shown (hinv : MarkedInv u m depth) (hphase : m.sys.phase = .idle) {n : Nat}
    (hpersisted : m.sys.tracker.undoWindowWatermarkPersisted = some n) :
    (stageBase m.sys.tracker).effective .undoWatermark = some (.decimalText n) := by
  have hquantity := (hinv.inv.idle hphase).quantity
  unfold stageBase
  by_cases hstaged : m.sys.staged = []
  · rw [hstaged, List.length_nil] at hquantity
    rw [if_pos hquantity, effective, beginTransaction_staged, overlay_none]
    exact (hinv.settled hstaged).persisted n hpersisted
  · have hne : m.sys.tracker.blocksQuantity ≠ 0 := by
      rw [hquantity]
      simpa using hstaged
    obtain ⟨-, -, hmemory, hshown⟩ := hinv.batch hstaged
    rw [hpersisted, Option.some.injEq] at hmemory
    rw [if_neg hne, hshown, hmemory]

theorem MarkedInv.stage (hinv : MarkedInv u m depth) (hphase : m.sys.phase = .idle)
    (hvalid : ValidBlock m.sys.full b) (hrun : m.sys.tracker.indexNextBlock b = some (.ok t))
    (hstep : MarkedStep u m m') (hsys : m'.sys = m.sys.afterStage b t) : MarkedInv u m' depth := by
  obtain ⟨t', hrun', -, -, hinv'⟩ := hinv.inv.stage hphase hvalid
  obtain ⟨t₁, hrun₁, hstaged⟩ := hinv.inv.indexNextBlock hphase hvalid
  rw [hrun] at hrun' hrun₁
  obtain rfl := Except.ok.inj (Option.some.inj hrun')
  obtain rfl := Except.ok.inj (Option.some.inj hrun₁)
  have hmark := hinv.mark_after hphase b.hash
  have hrecord : m'.sys.db[Key.undoWatermark]? = m.sys.db[Key.undoWatermark]? := by
    rw [hsys]
    exact congrArg (·[Key.undoWatermark]?) hstaged.db
  have hinv'' : InvAt m'.sys depth := by rwa [hsys]
  have hdeepest : m'.deepest = m.deepest := by
    rw [hstep.deepest, hinv''.durable.storedWindow]
    exact max_eq_left hinv.deepest
  have hlength : m'.sys.staged.length = m.sys.staged.length + 1 := by rw [hsys]; rfl
  have hne : m'.sys.staged ≠ [] := by rw [hsys]; exact List.cons_ne_nil _ _
  have hmemory : m'.sys.tracker.undoWindowWatermark = pushedMark m.sys.tracker b.hash := by
    rw [hsys]
    exact hstaged.mark
  refine ⟨hinv'', hstep.size, hdeepest ▸ hinv.deepest, ?_, fun hnil => absurd hnil hne,
    fun _ => ⟨?_, ?_, ?_, ?_⟩, fun hflushed => ?_⟩
  · rw [hrecord, hdeepest]
    exact hinv.disk
  · have hlast : m'.sys.tracker.lastBlocks = (m.sys.tracker.lastBlocks ++ [b.hash]).drop
        ((m.sys.tracker.lastBlocks ++ [b.hash]).length - m.sys.tracker.undoBlocks) := by
      rw [hsys]
      exact hstaged.lastBlocks
    have hkept := hinv.lastBlocks_length hphase
    rw [hlast, hlength, hinv.size]
    simp only [List.length_drop, List.length_append, List.length_singleton]
    omega
  · rw [hmemory, hmark, hdeepest, hlength, Nat.add_assoc]
  · rw [hmemory, hsys]
    exact hstaged.persisted
  · have hbase : (stageBase m.sys.tracker).db = m.sys.tracker.db.db := by
      unfold stageBase
      split <;> rfl
    have hshown : t₁.db.effective .undoWatermark =
        some (.decimalText (pushedMark m.sys.tracker b.hash)) := by
      rw [effective, hstaged.stagedMark, hstaged.db]
      split
      · next hpersisted =>
          rw [← hbase]
          exact hinv.base_shown hphase hpersisted
      · rfl
    rw [hmemory, hsys]
    exact hshown
  · rw [hsys] at hflushed
    cases hphase.symm.trans hflushed

theorem MarkedInv.flush (hinv : MarkedInv u m depth) (hphase : m.sys.phase = .idle)
    (hstaged : m.sys.staged ≠ []) {hash : Hash}
    (hhash : m.sys.tracker.lastProcessedBlockHash = some hash)
    (hrun : m.sys.tracker.commitBatch hash m.sys.tracker.lastProcessedBlockIndex = .ok t)
    (hstep : MarkedStep u m m')
    (hsys : m'.sys = { m.sys with tracker := t, phase := .flushed, chain := m.sys.full, staged := [] }) :
    MarkedInv u m' (depth + m.sys.staged.length) := by
  obtain ⟨hash', t', hhash', hrun', hundo, hlast, hframe, hinv'⟩ :=
    hinv.inv.flush hphase hstaged
  rw [hhash, Option.some.injEq] at hhash'
  subst hhash'
  rw [hrun] at hrun'
  obtain rfl := Except.ok.inj hrun'
  rw [← hsys] at hinv'
  obtain ⟨-, hmemory, hpersisted, hshown⟩ := hinv.batch hstaged
  have hdeepest : m'.deepest = max m.deepest (depth + m.sys.staged.length) := by
    rw [hstep.deepest, hinv'.durable.storedWindow]
  have hrecord : m'.sys.db[Key.undoWatermark]? =
      some (.decimalText (min u m'.deepest)) := by
    rw [hdeepest, ← hmemory, ← hshown, hsys]
    exact hframe.db _ (by simp) (by simp) (by simp)
  refine ⟨hinv', hstep.size, ?_, ?_, fun _ => ⟨?_, fun n hn => ?_⟩, fun hne => ?_,
    fun _ => hrecord⟩
  · rw [hdeepest]
    exact le_max_right _ _
  · rw [hrecord, storedMark, min_eq_right (min_le_left _ _)]
  · rw [hdeepest, ← hmemory, hsys]
    exact hframe.watermark
  · rw [hsys] at hn
    have hn' := hframe.persisted.symm.trans hn
    rw [hpersisted, hmemory, ← hdeepest, Option.some.injEq] at hn'
    rw [hrecord, hn']
  · rw [hsys] at hne
    exact absurd rfl hne

/-! ### Every step -/

theorem MarkedInv.cleanup (hinv : MarkedInv u m depth) (hphase : m.sys.phase = .flushed)
    (hrun : m.sys.tracker.cleanupAgedBlocks = .ok t) (hstep : MarkedStep u m m')
    (hsys : m'.sys = { m.sys with tracker := t.finishFlushedBlock, phase := .idle }) :
    ∃ depth', MarkedInv u m' depth' := by
  obtain ⟨t', hrun', -, -, hframe, kept, -, hle, -, hinv'⟩ := hinv.inv.cleanup hphase
  rw [hrun] at hrun'
  obtain rfl := Except.ok.inj hrun'
  have hflushed : FlushedInv m.sys depth := by
    have hloop := hinv.inv.loop
    rwa [LoopInv, hphase] at hloop
  have hkeeps := hframe.keepsMark
  refine ⟨kept, hinv.settle (hinv.settled hflushed.staged) ?_ (hsys ▸ hinv') hle ?_ ?_ hstep⟩
  · rw [hsys]
    exact ⟨hkeeps.watermark, hkeeps.persisted, hkeeps.record⟩
  · rw [hsys]
    exact hflushed.staged
  · rw [hsys]
    exact fun hother => by cases hother

/-- A round of the walk, ended or not, after which the system is `s'`. -/
theorem MarkedInv.round (hinv : MarkedInv u m depth) {entry : WalkEntry} {w : Walk}
    {answers : NodeAnswers} {result : WalkResult} (hphase : m.sys.phase = .walking entry w)
    (hround : m.sys.tracker.verifyReorgRound w answers = result)
    (hkept : KeepsMark result.tracker m'.sys.tracker)
    (hinv' : InvAt m'.sys depth') (hle : depth' ≤ depth) (hstaged : m'.sys.staged = m.sys.staged)
    (hother : m'.sys.phase ≠ .flushed) (hstep : MarkedStep u m m') : MarkedInv u m' depth' := by
  obtain ⟨hsettled, hwalk⟩ := hinv.inv.walking hphase
  have hkeeps := hinv.inv.durable.keepsMark_verifyReorgRound hsettled.last hwalk answers
  rw [hround] at hkeeps
  exact hinv.settle (hinv.settled hsettled.staged) (hkeeps.trans hkept) hinv' hle
    (hstaged.trans hsettled.staged) hother hstep

theorem Sys.afterRound_frame (s : Sys) (entry : WalkEntry) (w w' : Walk) (t : Tracker) :
    (s.afterRound entry w w' t).tracker = t ∧ (s.afterRound entry w w' t).staged = s.staged ∧
      (s.afterRound entry w w' t).phase = .walking entry w' ∧
      (s.afterRound entry w w' t).chain.length ≤ s.chain.length := by
  unfold Sys.afterRound
  split
  · next b rest hchain =>
      split
      · refine ⟨rfl, rfl, rfl, ?_⟩
        rw [hchain]
        exact Nat.le_succ _
      · exact ⟨rfl, rfl, rfl, le_rfl⟩
  · exact ⟨rfl, rfl, rfl, le_rfl⟩

/-- The cleanup after a walk finds the whole stored window in memory. -/
theorem InvAt.cleanup_walked {s : Sys} (hinv : InvAt s depth) (hphase : s.phase = .walked .mismatch) :
    ∃ t, s.tracker.reloadCursor.cleanupAgedBlocks = .ok t ∧ KeepsMark s.tracker t ∧
      t.undoBlocks = s.tracker.undoBlocks ∧ t.lastBlocks = s.tracker.lastBlocks := by
  have hsettled := hinv.walked hphase
  have hlast : s.tracker.reloadCursor.lastBlocks = (windowOf s.chain depth).reverse :=
    hsettled.last
  have hdurable : Durable s.provenance s.chain depth s.tracker.reloadCursor.db.db := hinv.durable
  obtain ⟨σ', hclean, -, -, -, hframe, -⟩ :=
    hdurable.cleanupAgedBlocks le_rfl hlast fun hash hmem => Or.inl (by
      rw [hlast]
      exact List.mem_reverse.mpr hmem)
  exact ⟨_, hclean, ⟨rfl, rfl, hframe _ rfl (by simp)⟩, rfl, rfl⟩

theorem MarkedInv.finishMismatch (hinv : MarkedInv u m depth)
    (hphase : m.sys.phase = .walked .mismatch)
    (hrun : m.sys.tracker.reloadCursor.cleanupAgedBlocks = .ok t) (hstep : MarkedStep u m m')
    (hsys : m'.sys = { m.sys with
      tracker := { t with pendingKMCleanup := [] }
      phase := .idle }) : MarkedInv u m' depth := by
  have hsettled := hinv.inv.walked hphase
  obtain ⟨t', hclean, hkeeps, -⟩ := hinv.inv.cleanup_walked hphase
  have hinv' := hinv.inv.finishMismatch hphase hrun
  rw [hclean] at hrun
  obtain rfl := Except.ok.inj hrun
  refine hinv.settle (hinv.settled hsettled.staged) ?_ (hsys ▸ hinv') le_rfl ?_ ?_ hstep
  · rw [hsys]
    exact ⟨hkeeps.watermark, hkeeps.persisted, hkeeps.record⟩
  · rw [hsys]
    exact hsettled.staged
  · rw [hsys]
    exact fun hother => by cases hother

/-- A restart reads the mark back. -/
theorem MarkedInv.restart (hinv : MarkedInv u m depth) {undoBlocks : Nat}
    (hrun : start m.sys.db undoBlocks = .ok t) (hstep : MarkedStep u m m')
    (hsys : m'.sys = { m.sys with tracker := t, phase := .idle, staged := [] }) :
    MarkedInv u m' depth := by
  have hinv' := hinv.inv.restart hrun
  rw [← hsys] at hinv'
  rw [hinv.inv.durable.start] at hrun
  obtain rfl := Except.ok.inj hrun
  obtain rfl : undoBlocks = u := by
    rw [← hstep.size, hsys]
    rfl
  have hdeepest : m'.deepest = m.deepest := by
    rw [hstep.deepest, hinv'.durable.storedWindow]
    exact max_eq_left hinv.deepest
  have hrecord : m'.sys.db[Key.undoWatermark]? = m.sys.db[Key.undoWatermark]? := by
    rw [hsys]
    rfl
  refine ⟨hinv', hstep.size, hdeepest ▸ hinv.deepest, ?_, fun _ => ⟨?_, fun n hn => ?_⟩,
    fun hne => ?_, fun hflushed => ?_⟩
  · rw [hrecord, hdeepest]
    exact hinv.disk
  · have hloaded : m'.sys.tracker.undoWindowWatermark =
        min (storedWatermark (createDatabase m.sys.db)) undoBlocks := by rw [hsys]; rfl
    rw [hloaded, storedWatermark_eq, hdeepest, ← hinv.disk, min_comm]
    rfl
  · rw [hsys] at hn
    have hn' : (if 0 < storedWatermark (createDatabase m.sys.db) then
        some (storedWatermark (createDatabase m.sys.db)) else none) = some n := hn
    rw [Option.ite_none_right_eq_some, Option.some.injEq] at hn'
    obtain ⟨hpos, rfl⟩ := hn'
    rw [hrecord]
    exact record_of_storedMark hpos
  · rw [hsys] at hne
    exact absurd rfl hne
  · rw [hsys] at hflushed
    cases hflushed

/-- **The step lemma.** -/
theorem MarkedInv.step (hinv : MarkedInv u m depth) (hstep : KeepingStep u m m') :
    ∃ depth', MarkedInv u m' depth' := by
  obtain ⟨hstep, hkeeps⟩ := hstep
  obtain ⟨sys, deepest⟩ := m'
  have hnext := hstep.step
  have hsize := hstep.size
  dsimp only at hnext hsize
  cases hnext with
  | stage hphase hvalid hrun => exact ⟨depth, hinv.stage hphase hvalid hrun hstep rfl⟩
  | stageFailed hphase hvalid hrun =>
      obtain ⟨t', hrun', -⟩ := hinv.inv.stage hphase hvalid
      rw [hrun'] at hrun
      cases hrun
  | flush hphase hstaged hhash hrun =>
      exact ⟨_, hinv.flush hphase hstaged hhash hrun hstep rfl⟩
  | cleanup hphase hrun => exact hinv.cleanup hphase hrun hstep rfl
  | mismatch hphase =>
      have hunstaged : m.sys.tracker.db.staged .undoWatermark = none := by
        by_contra hne
        exact hkeeps ⟨hphase, Or.inr ⟨_, rfl⟩, hne⟩
      exact ⟨depth, hinv.settle (hinv.settled_of_unstaged hunstaged) (keepsMark_discardBatch _)
        hinv.inv.mismatch le_rfl rfl (fun hother => by cases hother) hstep⟩
  | tipBelow hphase =>
      have hunstaged : m.sys.tracker.db.staged .undoWatermark = none := by
        by_contra hne
        exact hkeeps ⟨hphase, Or.inl rfl, hne⟩
      have hdiscard := keepsMark_discardInflightBatchForReorg m.sys.tracker
      exact ⟨depth, hinv.settle (hinv.settled_of_unstaged hunstaged)
        ⟨hdiscard.watermark, hdiscard.persisted, hdiscard.record⟩ (hinv.inv.tipBelow hphase) le_rfl
        rfl (fun hother => by cases hother) hstep⟩
  | repair hphase hlast hrun =>
      obtain ⟨hsettled, -⟩ := hinv.inv.recovering hphase
      have hrepair := keepsMark_commitLastBlockPointerRepair hrun
      exact ⟨depth, hinv.settle (hinv.settled hsettled.staged)
        ⟨hrepair.watermark, hrepair.persisted, hrepair.record⟩ (hinv.inv.repair hphase hlast hrun)
        le_rfl hsettled.staged (fun hother => by cases hother) hstep⟩
  | rollBackToNodeTip hphase hlast hbelow hreload =>
      obtain ⟨hsettled, -⟩ := hinv.inv.recovering hphase
      obtain ⟨depth', hinv', hle⟩ :=
        hinv.inv.step (.rollBackToNodeTip hphase hlast hbelow hreload)
      subst hreload
      refine ⟨depth', hinv.settle (hinv.settled hsettled.staged) ⟨rfl, rfl, rfl⟩ hinv' ?_
        hsettled.staged (fun hother => by cases hother) hstep⟩
      dsimp only at hle
      omega
  | walkNext hphase hround =>
      obtain ⟨depth', hinv', hle⟩ := hinv.inv.walkNext hphase hround
      obtain ⟨htracker, hstaged, hwalking, hchain⟩ :=
        Sys.afterRound_frame m.sys _ _ _ _
      refine ⟨depth', hinv.round hphase hround ?_ hinv' ?_ hstaged ?_ hstep⟩
      · rw [htracker]
        exact .refl _
      · omega
      · rw [hwalking]
        exact fun hother => by cases hother
  | walkReturned hphase hround =>
      exact ⟨depth, hinv.round hphase hround (.refl _) (hinv.inv.walkReturned hphase hround) le_rfl
        rfl (fun hother => by cases hother) hstep⟩
  | walkRefused hphase hround =>
      obtain ⟨depth', hinv', hle⟩ := hinv.inv.step (.walkRefused hphase hround)
      refine ⟨depth', hinv.round hphase hround (keepsMark_countRefusedWalk _ _) hinv' ?_ rfl
        (fun hother => by cases hother) hstep⟩
      dsimp only at hle
      omega
  | walkFailed hphase hround hfatal =>
      obtain ⟨depth', hinv', hle⟩ := hinv.inv.step (.walkFailed hphase hround hfatal)
      refine ⟨depth', hinv.round hphase hround (.refl _) hinv' ?_ rfl
        (fun hother => by cases hother) hstep⟩
      dsimp only at hle
      omega
  | finishMismatch hphase hrun => exact ⟨depth, hinv.finishMismatch hphase hrun hstep rfl⟩
  | finishTipBelow hphase =>
      exact ⟨depth, hinv.settle (hinv.settled (hinv.inv.walked hphase).staged) ⟨rfl, rfl, rfl⟩
        (hinv.inv.finishTipBelow hphase) le_rfl (hinv.inv.walked hphase).staged
        (fun hother => by cases hother) hstep⟩
  | restart hrun => exact ⟨depth, hinv.restart hrun hstep rfl⟩

/-! ### Setting out -/

/-- A start on a store whose `Q` record is its window. -/
theorem MarkedInv.of_load (hinit : MarkedInit u m) (hinv : InvAt m.sys depth)
    (hphase : m.sys.phase = .idle) (hstaged : m.sys.staged = [])
    (hload : m.sys.tracker = load m.sys.db u)
    (hmark : storedMark m.sys.db[Key.undoWatermark]? = depth) : MarkedInv u m depth := by
  have hdeepest : m.deepest = depth := by rw [hinit.deepest, hinv.durable.storedWindow]
  refine ⟨hinv, hinit.size, hdeepest.ge, by rw [hmark, hdeepest], fun _ => ⟨?_, fun n hn => ?_⟩,
    fun hne => absurd hstaged hne, fun hflushed => by cases hphase.symm.trans hflushed⟩
  · have hloaded : (load m.sys.db u).undoWindowWatermark =
        min (storedWatermark (createDatabase m.sys.db)) u := rfl
    rw [hload, hloaded, storedWatermark_eq, hdeepest, ← hmark, min_comm]
    rfl
  · rw [hload] at hn
    have hn' : (if 0 < storedWatermark (createDatabase m.sys.db) then
        some (storedWatermark (createDatabase m.sys.db)) else none) = some n := hn
    rw [Option.ite_none_right_eq_some, Option.some.injEq] at hn'
    obtain ⟨hpos, rfl⟩ := hn'
    exact record_of_storedMark hpos

theorem MarkedInv.of_empty (hinit : MarkedInit u m) (hempty : FromEmpty m.sys) :
    MarkedInv u m 0 := by
  obtain ⟨depth, hinv⟩ := hempty.inv
  obtain ⟨undoBlocks, hstart, hphase, hchain, hstaged, -, -⟩ := hempty
  have hzero : depth = 0 := by
    have := hinv.durable.depth_le
    rw [hchain] at this
    exact Nat.le_zero.mp this
  subst hzero
  rw [start_empty, Except.ok.injEq] at hstart
  obtain rfl : undoBlocks = u := by
    rw [← hinit.size, ← hstart]
    rfl
  have hdb : m.sys.db = setLayoutVersion ∅ := by
    rw [Sys.db, ← hstart]
    rfl
  refine .of_load hinit hinv hphase hstaged (by rw [hdb, hstart]) ?_
  rw [hdb]
  simp [setLayoutVersion, storedMark]

theorem MarkedInv.of_seed (hinit : MarkedInit u m) (hseed : FromSeed m.sys) :
    ∃ depth, MarkedInv u m depth := by
  obtain ⟨depth, hinv⟩ := hseed.inv
  obtain ⟨opts, db', undoBlocks, hstore, hstart, hphase, hstaged, -, -⟩ := hseed.seededStore
  rw [hstore.durable.start, Except.ok.injEq] at hstart
  obtain rfl : undoBlocks = u := by
    rw [← hinit.size, ← hstart]
    rfl
  have hdb : m.sys.db = db' := by
    rw [Sys.db, ← hstart]
    rfl
  have hdurable := hstore.durable
  rw [← hdb] at hdurable
  have hdepth : depth = min opts.undoBlocks m.sys.chain.length :=
    hinv.durable.storedWindow.symm.trans hdurable.storedWindow
  refine ⟨depth, .of_load hinit hinv hphase hstaged (by rw [hdb, hstart]) ?_⟩
  rw [hdb, hstore.watermark, ← hdepth]
  split
  · rfl
  · next hpos => exact (Nat.eq_zero_of_not_pos hpos).symm

theorem MarkedInv.init (hinit : MarkedInit u m) : ∃ depth, MarkedInv u m depth :=
  hinit.start.elim (fun hempty => ⟨0, MarkedInv.of_empty hinit hempty⟩)
    fun hseed => MarkedInv.of_seed hinit hseed

/-- **The watermark is exact** in every run whose walks back drop no staged `Q`: after each committed
flush the record is the deepest window ever committed, up to `undoBlocks`, so it covers the window just
committed. -/
theorem undo_watermark_exact (hreach : Transition.Reachable (MarkedInit u) (KeepingStep u) m)
    (hflushed : m.sys.phase = .flushed) :
    m.sys.db[Key.undoWatermark]? = some (.decimalText (min u m.deepest)) ∧
      min u (storedWindow m.sys) ≤ min u m.deepest := by
  obtain ⟨depth, hinv⟩ := hreach.invariant (fun _ hinit => MarkedInv.init hinit)
    fun _ _ hinv hstep => hinv.elim fun _ hinv => hinv.step hstep
  refine ⟨hinv.flushed hflushed, ?_⟩
  rw [hinv.inv.durable.storedWindow]
  exact min_le_min le_rfl hinv.deepest

/-! ### Runs of a few blocks -/

/-- A step that makes the window no deeper than it has been. -/
theorem MarkedInv.after (hinv : MarkedInv u m depth) (hstep : Step m.sys s')
    (hsize : s'.tracker.undoBlocks = u) (hkeeps : ¬ DropsStagedMark m.sys s')
    (hinv' : InvAt s' depth') (hle : depth' ≤ m.deepest) :
    KeepingStep u m ⟨s', m.deepest⟩ ∧ MarkedInv u ⟨s', m.deepest⟩ depth' := by
  have hdeepest : m.deepest = max m.deepest (storedWindow s') := by
    rw [hinv'.durable.storedWindow, max_eq_left hle]
  have hnext : KeepingStep u m ⟨s', m.deepest⟩ := ⟨⟨hstep, hsize, hdeepest⟩, hkeeps⟩
  obtain ⟨depth₁, hmarked⟩ := hinv.step hnext
  have heq : depth₁ = depth' :=
    hmarked.inv.durable.storedWindow.symm.trans hinv'.durable.storedWindow
  exact ⟨hnext, heq ▸ hmarked⟩

/-- One more block, staged and flushed. -/
theorem MarkedInv.exists_flushed (hinv : MarkedInv u m depth) (hphase : m.sys.phase = .idle)
    (hstaged : m.sys.staged = []) (hvalid : ValidBlock m.sys.chain b) :
    ∃ m', Relation.ReflTransGen (KeepingStep u) m m' ∧ MarkedInv u m' (depth + 1) ∧
      m'.sys.chain = b :: m.sys.chain ∧ m'.sys.phase = .flushed ∧
      m'.deepest = max m.deepest (depth + 1) := by
  have hfull := Sys.full_of_staged_nil hstaged
  have hvalid' : ValidBlock m.sys.full b := by rwa [hfull]
  obtain ⟨t₁, hrun₁, hundo₁, -, hnext₁⟩ := hinv.inv.stage hphase hvalid'
  obtain ⟨hkeeps₁, hinv₁⟩ := hinv.after (.stage hphase hvalid' hrun₁) (hundo₁.trans hinv.size)
    (by
      rintro ⟨-, hwalk | ⟨w, hwalk⟩, -⟩
      · cases hphase.symm.trans hwalk
      · cases hphase.symm.trans hwalk) hnext₁ hinv.deepest
  have hone : (m.sys.afterStage b t₁).staged.length = 1 := by
    simp [Sys.afterStage, hstaged]
  have hchain : (m.sys.afterStage b t₁).full = b :: m.sys.chain := by
    simp [Sys.afterStage, Sys.full, hstaged]
  have hne : (m.sys.afterStage b t₁).staged ≠ [] := List.cons_ne_nil _ _
  obtain ⟨hash, t₂, hhash, hrun₂, hundo₂, -, -, hnext₂⟩ := hinv₁.inv.flush hphase hne
  rw [hone] at hnext₂
  have hstep₂ : MarkedStep u ⟨m.sys.afterStage b t₁, m.deepest⟩ ⟨{ m.sys.afterStage b t₁ with
      tracker := t₂, phase := .flushed, chain := (m.sys.afterStage b t₁).full, staged := [] },
        max m.deepest (depth + 1)⟩ :=
    ⟨.flush hphase hne hhash hrun₂, hundo₂.trans (hundo₁.trans hinv.size),
      congrArg (max m.deepest) hnext₂.durable.storedWindow.symm⟩
  have hinv₂ := hinv₁.flush hphase hne hhash hrun₂ hstep₂ rfl
  rw [hone] at hinv₂
  have hkeeps₂ : KeepingStep u _ _ := ⟨hstep₂, by rintro ⟨-, hwalk | ⟨w, hwalk⟩, -⟩ <;> cases hwalk⟩
  exact ⟨_, (Relation.ReflTransGen.single hkeeps₁).tail hkeeps₂, hinv₂, hchain, rfl, rfl⟩

/-- A restart. -/
theorem MarkedInv.exists_restarted (hinv : MarkedInv u m depth) :
    ∃ m', KeepingStep u m m' ∧ MarkedInv u m' depth ∧ m'.sys.chain = m.sys.chain ∧
      m'.sys.db = m.sys.db ∧ m'.sys.tracker = load m'.sys.db u ∧ m'.sys.phase = .idle ∧
      m'.sys.staged = [] ∧ m'.deepest = m.deepest := by
  have hrun := hinv.inv.durable.start u
  obtain ⟨hkeeps, hinv'⟩ := hinv.after (.restart hrun) rfl
    (by rintro ⟨-, hwalk | ⟨w, hwalk⟩, -⟩ <;> cases hwalk) (hinv.inv.restart hrun) hinv.deepest
  exact ⟨_, hkeeps, hinv', rfl, rfl, rfl, rfl, rfl, rfl⟩

/-- Into the walk that follows a mismatch. -/
def Sys.mismatched (s : Sys) : Sys :=
  { s with
    tracker := s.tracker.discardBatch
    phase := .walking .mismatch (s.tracker.discardBatch.startWalk none)
    staged := [] }

/-- A reorg of one block, on an empty batch. -/
theorem MarkedInv.exists_rolledBack {c : Block} {rest : Chain} (hinv : MarkedInv u m depth)
    (hload : m.sys.tracker = load m.sys.db u) (hphase : m.sys.phase = .idle)
    (hchain : m.sys.chain = b :: c :: rest) (hdepth : 0 < depth) (hu : 0 < u) :
    ∃ m' depth', Relation.ReflTransGen (KeepingStep u) m m' ∧ MarkedInv u m' depth' ∧
      m'.sys.chain = c :: rest ∧ m'.sys.phase = .idle ∧ m'.sys.staged = [] ∧
      m'.deepest = m.deepest := by
  have hunstaged : m.sys.tracker.db.staged .undoWatermark = none := by
    rw [hload]
    simp [load, createDatabase, LevelUpStore.staged]
  -- The node no longer has the tip.
  have hstep₁ : Step m.sys m.sys.mismatched := .mismatch hphase
  obtain ⟨hkeeps₁, hinv₁⟩ := hinv.after hstep₁ hinv.size
    (fun hdrops => hdrops.2.2 hunstaged) hinv.inv.mismatch hinv.deepest
  have hchain₁ : m.sys.mismatched.chain = b :: c :: rest := hchain
  obtain ⟨hsettled₁, hwalk₁⟩ := hinv₁.inv.walking rfl
  have hdurable₁ := hinv₁.inv.durable
  have hlast₁ := hsettled₁.last
  rw [hchain₁] at hdurable₁ hlast₁
  have hwindow : m.sys.tracker.discardBatch.lastBlocks.length = depth :=
    hdurable₁.window_length hlast₁
  have hsize : m.sys.tracker.discardBatch.undoBlocks = u := hinv.size
  have hswapped : (⟨some (b.hash + 1), [], true⟩ : NodeAnswers).blockHash = some (b.hash + 1) := rfl
  obtain ⟨t₂, w₂, hround₂, hdeleted, htip, hundo₂⟩ := verifyReorgRound_rollsBack hdurable₁ hlast₁
    hwalk₁
    (by
      rw [startWalk_budget, hwindow, hsize]
      exact lt_min hdepth hu) rfl hswapped (by simp) rfl
  obtain ⟨depth₂, hnext₂, hle⟩ := hinv₁.inv.walkNext rfl hround₂
  have hstep₂ : Step m.sys.mismatched _ := .walkNext rfl hround₂
  have hafter : m.sys.mismatched.afterRound .mismatch _ w₂ t₂ = _ :=
    Sys.afterRound_of_deleted hchain₁ hdeleted
  rw [hafter] at hnext₂ hle hstep₂
  have hshorter : depth₂ ≤ depth := by
    dsimp only at hle
    rw [hchain₁, List.length_cons] at hle
    omega
  obtain ⟨hkeeps₂, hinv₂⟩ := hinv₁.after hstep₂ (hundo₂.trans hinv.size)
    (by rintro ⟨hidle, -⟩; cases hidle) hnext₂ (hshorter.trans hinv.deepest)
  -- It has the one below.
  have hagreed := hinv₂.inv.durable.verifyReorgRound_agreed ⟨some c.hash, [], true⟩ htip rfl
  have hundo₃ : (t₂.recordReorg w₂).undoBlocks = u :=
    (recordReorg_undoBlocks t₂ w₂).trans (hundo₂.trans hinv.size)
  obtain ⟨hkeeps₃, hinv₃⟩ := hinv₂.after (.walkReturned rfl hagreed) hundo₃
    (by rintro ⟨hidle, -⟩; cases hidle) (hinv₂.inv.walkReturned rfl hagreed) hinv₂.deepest
  obtain ⟨t₄, hrun₄, -, hundo₄, -⟩ := hinv₃.inv.cleanup_walked rfl
  obtain ⟨hkeeps₄, hinv₄⟩ := hinv₃.after (.finishMismatch rfl hrun₄) (hundo₄.trans hundo₃)
    (by rintro ⟨hidle, -⟩; cases hidle) (hinv₃.inv.finishMismatch rfl hrun₄) hinv₃.deepest
  exact ⟨_, _, (((Relation.ReflTransGen.single hkeeps₁).tail hkeeps₂).tail hkeeps₃).tail hkeeps₄,
    hinv₄, rfl, rfl, rfl, rfl⟩

/-- The first block is flushed. -/
theorem exists_firstFlushed :
    ∃ m, Transition.Reachable (MarkedInit 3) (KeepingStep 3) m ∧ MarkedInv 3 m 1 ∧
      m.deepest = 1 ∧ m.sys.chain = [firstBlock] ∧ m.sys.phase = .flushed := by
  have hempty := fromEmpty_empty 3
  have hinit : MarkedInit 3 ⟨Sys.empty 3, storedWindow (Sys.empty 3)⟩ := ⟨Or.inl hempty, rfl, rfl⟩
  have hinv := MarkedInv.of_empty hinit hempty
  obtain ⟨m, hrun, hinv', hchain, hphase, hdeepest⟩ :=
    hinv.exists_flushed rfl rfl validChain_spending.2.1
  have hwindow : storedWindow (Sys.empty 3) = 0 := hinv.inv.durable.storedWindow
  exact ⟨m, Transition.Reachable.trans (.start hinit) hrun, hinv', by rw [hdeepest, hwindow]; rfl,
    hchain, hphase⟩

/-- The second block is committed too, with a restart after each. -/
theorem exists_twoCommitted : ∃ m, Transition.Reachable (MarkedInit 3) (KeepingStep 3) m ∧
    MarkedInv 3 m 2 ∧ m.sys.chain = [spendingBlock, firstBlock] ∧
    m.sys.tracker = load m.sys.db 3 ∧ m.sys.phase = .idle ∧ m.deepest = 2 := by
  obtain ⟨m₁, hreach, hinv₁, hdeepest₁, hchain₁, -⟩ := exists_firstFlushed
  obtain ⟨m₂, hstep₂, hinv₂, hchain₂, -, -, hphase₂, hstaged₂, hdeepest₂⟩ :=
    hinv₁.exists_restarted
  rw [hchain₁] at hchain₂
  obtain ⟨m₃, hrun₃, hinv₃, hchain₃, -, hdeepest₃⟩ := hinv₂.exists_flushed hphase₂ hstaged₂
    (hchain₂ ▸ validChain_spending.1)
  obtain ⟨m₄, hstep₄, hinv₄, hchain₄, -, hload₄, hphase₄, -, hdeepest₄⟩ := hinv₃.exists_restarted
  refine ⟨m₄, ((hreach.next hstep₂).trans hrun₃).next hstep₄, hinv₄, ?_, hload₄, hphase₄, ?_⟩
  · rw [hchain₄, hchain₃, hchain₂]
  · rw [hdeepest₄, hdeepest₃, hdeepest₂, hdeepest₁]
    rfl

/-- The second block is rolled back and comes again: the record stays at the two blocks that were in
the window before the reorg. -/
theorem undo_watermark_exact_reorged :
    ∃ m, Transition.Reachable (MarkedInit 3) (KeepingStep 3) m ∧ m.sys.phase = .flushed ∧
      m.sys.db[Key.undoWatermark]? = some (.decimalText 2) := by
  obtain ⟨m₁, hreach, hinv₁, hchain₁, hload, hphase₁, hdeepest₁⟩ := exists_twoCommitted
  obtain ⟨m₂, depth₂, hrun₂, hinv₂, hchain₂, hphase₂, hstaged₂, hdeepest₂⟩ :=
    hinv₁.exists_rolledBack hload hphase₁ hchain₁ Nat.two_pos (Nat.succ_pos 2)
  obtain ⟨m₃, hrun₃, -, -, hphase₃, hdeepest₃⟩ := hinv₂.exists_flushed hphase₂ hstaged₂
    (hchain₂ ▸ validChain_spending.1)
  have hreach₃ := (hreach.trans hrun₂).trans hrun₃
  have hle : depth₂ ≤ 1 := by
    have hdepth := hinv₂.inv.durable.depth_le
    rwa [hchain₂] at hdepth
  have hrecord := (undo_watermark_exact hreach₃ hphase₃).1
  rw [hdeepest₃, hdeepest₂, hdeepest₁, max_eq_left (by omega)] at hrecord
  exact ⟨m₃, hreach₃, hphase₃, hrecord⟩

/-! ### A lost record -/

/-- The first block is committed. -/
structure FirstCommitted (m : MarkedSys) : Prop where
  reach : Transition.Reachable (MarkedInit 3) (MarkedStep 3) m
  inv : MarkedInv 3 m 1
  deepest : m.deepest = 1
  chain : m.sys.chain = [firstBlock]
  record : m.sys.db[Key.undoWatermark]? = some (.decimalText 1)
  phase : m.sys.phase = .idle
  staged : m.sys.staged = []

theorem exists_firstCommitted : ∃ m, FirstCommitted m := by
  obtain ⟨m, hreach, hinv, hdeepest, hchain, hphase⟩ := exists_firstFlushed
  obtain ⟨m', hstep, hinv', hchain', hdb, -, hphase', hstaged, hdeepest'⟩ :=
    hinv.exists_restarted
  have hrecord := hinv.flushed hphase
  rw [hdeepest, ← hdb] at hrecord
  exact ⟨m', (hreach.mono (fun _ hinit => hinit) fun _ _ hstep => hstep.1).next hstep.1, hinv',
    hdeepest'.trans hdeepest, hchain'.trans hchain, hrecord, hphase', hstaged⟩

/-- The tracker remembers a mark of 2, and the disk holds 1. -/
structure LostMark (m : MarkedSys) : Prop where
  reach : Transition.Reachable (MarkedInit 3) (MarkedStep 3) m
  inv : InvAt m.sys 1
  size : m.sys.tracker.undoBlocks = 3
  deepest : m.deepest = 1
  chain : m.sys.chain = [firstBlock]
  memory : m.sys.tracker.undoWindowWatermark = 2
  persisted : m.sys.tracker.undoWindowWatermarkPersisted = some 2
  record : m.sys.db[Key.undoWatermark]? = some (.decimalText 1)

/-- A step that leaves the mark, the window and the chain. -/
theorem LostMark.next {sys : Sys} (hlost : LostMark m) (hstep : Step m.sys sys) (hinv : InvAt sys 1)
    (hkeeps : KeepsMark m.sys.tracker sys.tracker)
    (hsize : sys.tracker.undoBlocks = m.sys.tracker.undoBlocks)
    (hchain : sys.chain = m.sys.chain) : LostMark ⟨sys, m.deepest⟩ := by
  have hdeepest : m.deepest = max m.deepest (storedWindow sys) := by
    rw [hinv.durable.storedWindow, hlost.deepest, max_self]
  exact ⟨hlost.reach.next ⟨hstep, hsize.trans hlost.size, hdeepest⟩, hinv,
    hsize.trans hlost.size, hlost.deepest, hchain.trans hlost.chain,
    hkeeps.watermark.trans hlost.memory, hkeeps.persisted.trans hlost.persisted,
    hkeeps.record.trans hlost.record⟩

/-- The second block is staged. -/
theorem exists_lostMark_staged : ∃ m, LostMark m ∧ m.sys.phase = .idle := by
  obtain ⟨m, hreach, hmarked, hdeepest, hchain, hrecord, hphase, hstaged⟩ := exists_firstCommitted
  have hvalid : ValidBlock m.sys.full spendingBlock := by
    rw [Sys.full_of_staged_nil hstaged, hchain]
    exact validChain_spending.1
  obtain ⟨t, hrun, hundo, -, hinv⟩ := hmarked.inv.stage hphase hvalid
  obtain ⟨t₁, hrun₁, hblock⟩ := hmarked.inv.indexNextBlock hphase hvalid
  rw [hrun] at hrun₁
  obtain rfl := Except.ok.inj (Option.some.inj hrun₁)
  have hmark := hmarked.mark_after hphase spendingBlock.hash
  rw [hdeepest, hstaged] at hmark
  have hnext : m.deepest = max m.deepest
      (storedWindow (m.sys.afterStage spendingBlock
        (t₁.advanceCursor spendingBlock.hash m.sys.full.length))) := by
    rw [hinv.durable.storedWindow, hdeepest, max_self]
  refine ⟨⟨_, m.deepest⟩, ⟨hreach.next ⟨.stage hphase hvalid hrun, hundo.trans hmarked.size, hnext⟩,
    hinv, hundo.trans hmarked.size, hdeepest, hchain, hblock.mark.trans hmark,
    hblock.persisted.trans (congrArg some hmark), ?_⟩, hphase⟩
  exact (congrArg (·[Key.undoWatermark]?) hblock.db).trans hrecord

/-- Its batch is dropped by a walk that finds the tip in place. -/
theorem exists_lostMark : ∃ m, LostMark m ∧ m.sys.phase = .idle ∧ m.sys.staged = [] := by
  obtain ⟨m₁, hlost₁, hphase₁⟩ := exists_lostMark_staged
  have hlost₂ := hlost₁.next (.mismatch hphase₁) hlost₁.inv.mismatch (keepsMark_discardBatch _) rfl
    rfl
  have hdurable := hlost₂.inv.durable
  rw [hlost₂.chain] at hdurable
  have hround := hdurable.verifyReorgRound_agreed
    (w := m₁.sys.tracker.discardBatch.startWalk none) ⟨some 1, [], true⟩ rfl rfl
  have hsame : m₁.sys.tracker.discardBatch.recordReorg
      (m₁.sys.tracker.discardBatch.startWalk none) = m₁.sys.tracker.discardBatch := if_pos rfl
  rw [hsame] at hround
  have hlost₃ := hlost₂.next (.walkReturned rfl hround) (hlost₂.inv.walkReturned rfl hround)
    (.refl _) rfl rfl
  obtain ⟨t, hrun, hkeeps, hsize, -⟩ := hlost₃.inv.cleanup_walked rfl
  have hlost₄ := hlost₃.next (.finishMismatch rfl hrun) (hlost₃.inv.finishMismatch rfl hrun)
    ⟨hkeeps.watermark, hkeeps.persisted, hkeeps.record⟩ hsize rfl
  exact ⟨_, hlost₄, rfl, rfl⟩

/-- The second block is staged again, and no mark with it. -/
theorem exists_restaged : ∃ m, Transition.Reachable (MarkedInit 3) (MarkedStep 3) m ∧
    InvAt m.sys 1 ∧ m.sys.tracker.undoBlocks = 3 ∧ m.deepest = 1 ∧ m.sys.phase = .idle ∧
      m.sys.staged = [spendingBlock] ∧
      m.sys.tracker.db.effective .undoWatermark = some (.decimalText 1) := by
  obtain ⟨m, hlost, hphase, hstaged⟩ := exists_lostMark
  have hvalid : ValidBlock m.sys.full spendingBlock := by
    rw [Sys.full_of_staged_nil hstaged, hlost.chain]
    exact validChain_spending.1
  obtain ⟨t, hrun, hundo, hlast, hinv⟩ := hlost.inv.stage hphase hvalid
  obtain ⟨t₁, hrun₁, hblock⟩ := hlost.inv.indexNextBlock hphase hvalid
  rw [hrun] at hrun₁
  have hcursor := Except.ok.inj (Option.some.inj hrun₁)
  have hidle := hlost.inv.idle hphase
  have hquantity : m.sys.tracker.blocksQuantity = 0 := by
    rw [hidle.quantity, hstaged]
    rfl
  -- The block deepens the window to 2, which the tracker believes to be on disk.
  have hmark : pushedMark m.sys.tracker spendingBlock.hash = 2 := by
    obtain ⟨kept, hwindow, hkept⟩ := hidle.window
    have hlength := hwindow.last
    rw [if_pos hstaged] at hkept
    rw [Sys.full_of_staged_nil hstaged, hlost.chain, hkept] at hlength
    rw [pushedMark, hlength, hlost.memory, hlost.size]
    rfl
  have hunstaged : t₁.db.staged .undoWatermark = none := by
    rw [hblock.stagedMark, hmark, if_pos hlost.persisted, stageBase, if_pos hquantity,
      beginTransaction_staged]
  have hshown : t₁.db.effective .undoWatermark = some (.decimalText 1) := by
    rw [effective, hunstaged, overlay_none, hblock.db]
    exact hlost.record
  have hsize := hundo.trans hlost.size
  have hdeepest : 1 = max m.deepest (storedWindow (m.sys.afterStage spendingBlock t)) := by
    rw [hinv.durable.storedWindow, hlost.deepest, max_self]
  refine ⟨⟨m.sys.afterStage spendingBlock t, 1⟩,
    hlost.reach.next ⟨.stage hphase hvalid hrun, hsize, hdeepest⟩, hinv, hsize, rfl, hphase, ?_, ?_⟩
  · simp only [Sys.afterStage, hstaged]
  · simp only [Sys.afterStage, hcursor]
    exact hshown

/-- **A dropped batch loses the watermark.** The second block is committed: two blocks are in the
window, and the record on disk is 1. -/
theorem undo_watermark_lost : ∃ m, Transition.Reachable (MarkedInit 3) (MarkedStep 3) m ∧
    m.sys.phase = .flushed ∧ storedWindow m.sys = 2 ∧ m.deepest = 2 ∧
      m.sys.db[Key.undoWatermark]? = some (.decimalText 1) := by
  obtain ⟨m, hreach, hinv, hsize, hdeepest, hphase, hstaged, hshown⟩ := exists_restaged
  have hne : m.sys.staged ≠ [] := by
    rw [hstaged]
    exact List.cons_ne_nil _ _
  obtain ⟨hash, t, hhash, hrun, hundo, -, hframe, hinv'⟩ := hinv.flush hphase hne
  have hwindow := hinv'.durable.storedWindow
  rw [hstaged] at hwindow
  refine ⟨⟨_, 2⟩, hreach.next ⟨.flush hphase hne hhash hrun, hundo.trans hsize, ?_⟩, rfl, hwindow,
    rfl, (hframe.db _ (by simp) (by simp) (by simp)).trans hshown⟩
  exact ((congrArg₂ max hdeepest hwindow).trans rfl).symm

end Run

end UtxoTracker

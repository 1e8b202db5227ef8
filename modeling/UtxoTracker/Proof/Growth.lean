import UtxoTracker.Safety.UtxoSet
/-!
# Runs that only index

While no block is walked back and every restart keeps the window size, the store is a function of
where the run set out from and of the blocks it has indexed: the window holds as many of the newest
blocks as fit it, and the watermark is the deepest the window has been.
-/

namespace UtxoTracker

open KeyedStore LevelUpStore Provenance Tracker

/-! ### Where a run sets out from -/

/-- The store an indexing run sets out from: the length of its chain, the depth of its window, and
the records that indexing leaves alone. -/
structure Origin where
  blocks : Nat
  depth : Nat
  /-- Its `Q` record. -/
  watermark : Option Value
  /-- Its `R` record. -/
  halt : Option Value
  provenance : Provenance

/-- The mark a `Q` record stores, 0 when there is none. -/
def storedMark : Option Value → Nat
  | some (.decimalText n) => n
  | _ => 0

theorem storedWatermark_eq (db : LevelUpStore) :
    storedWatermark db = storedMark db.db[Key.undoWatermark]? := by
  unfold storedWatermark
  rfl

theorem record_of_storedMark {record : Option Value} (hpos : 0 < storedMark record) :
    record = some (.decimalText (storedMark record)) := by
  unfold storedMark at hpos ⊢
  split
  · rfl
  · simp at hpos

namespace Origin

variable (origin : Origin) (undoBlocks : Nat)

/-- A path that holds no store. -/
def nothing : Origin :=
  { blocks := 0
    depth := 0
    watermark := none
    halt := none
    provenance := .live }

/-- The number of blocks in the window of a chain of this length. -/
def window (length : Nat) : Nat := min undoBlocks (origin.depth + (length - origin.blocks))

/-- The mark at a chain of this length. It is not touched before the first block. -/
def mark (length : Nat) : Nat :=
  if length = origin.blocks then min (storedMark origin.watermark) undoBlocks
  else max (min (storedMark origin.watermark) undoBlocks) (origin.window undoBlocks length)

/-- The `Q` record at a chain of this length. -/
def markRecord (length : Nat) : Option Value :=
  if length = origin.blocks then origin.watermark
  else some (.decimalText (origin.mark undoBlocks length))

variable {origin undoBlocks} {length : Nat}

theorem mark_le : origin.mark undoBlocks length ≤ undoBlocks := by
  unfold mark window
  split <;> omega

/-- One more block. -/
theorem mark_succ (hle : origin.blocks ≤ length) :
    origin.mark undoBlocks (length + 1) =
      max (origin.mark undoBlocks length) (origin.window undoBlocks (length + 1)) := by
  have hne : length + 1 ≠ origin.blocks := by omega
  unfold mark window
  rw [if_neg hne]
  split <;> omega

theorem markRecord_succ (hle : origin.blocks ≤ length) :
    origin.markRecord undoBlocks (length + 1) =
      some (.decimalText (origin.mark undoBlocks (length + 1))) := by
  have hne : length + 1 ≠ origin.blocks := by omega
  rw [markRecord, if_neg hne]

/-- What a restart reads back is the mark it had. -/
theorem storedMark_markRecord :
    min (storedMark (origin.markRecord undoBlocks length)) undoBlocks =
      origin.mark undoBlocks length := by
  unfold markRecord
  split
  · next hlength => rw [mark, if_pos hlength]
  · exact min_eq_left mark_le

theorem nothing_window (undoBlocks length : Nat) :
    nothing.window undoBlocks length = min undoBlocks length := by
  simp [window, nothing]

theorem nothing_mark (undoBlocks length : Nat) :
    nothing.mark undoBlocks length = min undoBlocks length := by
  have hstored : storedMark nothing.watermark = 0 := rfl
  have hblocks : nothing.blocks = 0 := rfl
  rw [mark, nothing_window, hstored, hblocks]
  split <;> omega

end Origin

/-- A state as the origin of a run. -/
def Sys.origin (s : Sys) (depth : Nat) : Origin :=
  { blocks := s.chain.length
    depth
    watermark := s.db[Key.undoWatermark]?
    halt := s.db[Key.haltMarker]?
    provenance := s.provenance }

/-! ### What holds along the run -/

/-- The in-memory window: as many of the newest blocks as fit it. A restart may find more on disk, until
the next block is staged. -/
structure FullWindow (origin : Origin) (undoBlocks kept : Nat) (s : Sys) : Prop where
  last : s.tracker.lastBlocks = (windowOf s.full kept).reverse
  kept_le : kept ≤ s.full.length
  full : origin.window undoBlocks s.full.length ≤ kept
  below : kept ≤ origin.depth + (s.full.length - origin.blocks)
  trimmed : s.staged ≠ [] ∨ s.phase = .flushed → kept ≤ undoBlocks

/-- The watermark, in memory, in the open batch and on disk. -/
structure MarkInv (origin : Origin) (undoBlocks : Nat) (s : Sys) : Prop where
  memory : s.tracker.undoWindowWatermark = origin.mark undoBlocks s.full.length
  persisted : ∀ n, s.tracker.undoWindowWatermarkPersisted = some n →
    origin.markRecord undoBlocks s.full.length = some (.decimalText n)
  batch : s.staged ≠ [] →
    s.tracker.db.effective .undoWatermark = origin.markRecord undoBlocks s.full.length
  durable : s.db[Key.undoWatermark]? = origin.markRecord undoBlocks s.chain.length

/-- What holds along a run that only indexes. -/
structure Growth (origin : Origin) (undoBlocks : Nat) (s : Sys) : Prop where
  size : s.tracker.undoBlocks = undoBlocks
  provenance : s.provenance = origin.provenance
  grown : origin.blocks ≤ s.chain.length
  committed : s.phase = .flushed → s.chain ≠ []
  window : ∃ depth, InvAt s depth ∧ origin.window undoBlocks s.chain.length ≤ depth ∧
    depth ≤ origin.depth + (s.chain.length - origin.blocks)
  memory : ∃ kept, FullWindow origin undoBlocks kept s
  mark : MarkInv origin undoBlocks s
  queue : s.tracker.pendingKMCleanup = [] → s.db[Key.pendingCleanup]? = none
  halt : s.db[Key.haltMarker]? = origin.halt

section Steps

variable {origin : Origin} {u depth kept : Nat} {s : Sys} {b : Block} {t : Tracker}

theorem FullWindow.length (hfull : FullWindow origin u kept s) :
    s.tracker.lastBlocks.length = kept := by
  rw [hfull.last, List.length_reverse, windowOf_length hfull.kept_le]

/-- The window after one more block. -/
theorem FullWindow.push (hfull : FullWindow origin u kept s) (hundo : s.tracker.undoBlocks = u)
    (hgrown : origin.blocks ≤ s.full.length) :
    (s.tracker.lastBlocks ++ [b.hash]).drop
        ((s.tracker.lastBlocks ++ [b.hash]).length - s.tracker.undoBlocks) =
      (windowOf (b :: s.full) (origin.window u (s.full.length + 1))).reverse := by
  have hpushed : s.tracker.lastBlocks ++ [b.hash] =
      (windowOf (b :: s.full) (kept + 1)).reverse := by
    rw [hfull.last, windowOf_cons_succ, List.reverse_cons]
  have hmin : origin.window u (s.full.length + 1) = min u (kept + 1) := by
    have hbelow := hfull.below
    have hfit := hfull.full
    unfold Origin.window at hfit ⊢
    omega
  rw [hpushed, List.length_reverse, ← List.reverse_take, hmin, hundo]
  simp only [windowOf, List.map_take, List.take_take]

theorem FullWindow.push_le (hfull : FullWindow origin u kept s)
    (hgrown : origin.blocks ≤ s.full.length) :
    origin.window u (s.full.length + 1) ≤ s.full.length + 1 := by
  have hfit := hfull.full
  have hle := hfull.kept_le
  unfold Origin.window at hfit ⊢
  omega

theorem FullWindow.pushedMark (hfull : FullWindow origin u kept s)
    (hundo : s.tracker.undoBlocks = u) (hgrown : origin.blocks ≤ s.full.length)
    (hmark : MarkInv origin u s) :
    pushedMark s.tracker b.hash = origin.mark u (s.full.length + 1) := by
  have hwindow : origin.window u (s.full.length + 1) ≤ u := Nat.min_le_left _ _
  rw [UtxoTracker.pushedMark, hfull.push hundo hgrown, List.length_reverse,
    windowOf_length (hfull.push_le hgrown), hundo, hmark.memory, min_eq_left hwindow,
    Origin.mark_succ hgrown]

/-- The store the next block is staged on shows the watermark of the blocks so far. -/
theorem MarkInv.base (hmark : MarkInv origin u s) (hidle : IdleInv s depth) :
    (stageBase s.tracker).effective .undoWatermark = origin.markRecord u s.full.length := by
  unfold stageBase
  by_cases hstaged : s.staged = []
  · have hquantity : s.tracker.blocksQuantity = 0 := by
      rw [hidle.quantity, hstaged, List.length_nil]
    rw [if_pos hquantity, effective, beginTransaction_staged, overlay_none,
      Sys.full_of_staged_nil hstaged, ← hmark.durable]
    rfl
  · have hquantity : s.tracker.blocksQuantity ≠ 0 := by
      rw [hidle.quantity]
      simpa using hstaged
    rw [if_neg hquantity, hmark.batch hstaged]

theorem Growth.grown_full (hgrowth : Growth origin u s) : origin.blocks ≤ s.full.length := by
  rw [List.length_append]
  exact hgrowth.grown.trans (Nat.le_add_left _ _)

/-- Staging one more block. -/
theorem Growth.stage (hgrowth : Growth origin u s) (hphase : s.phase = .idle)
    (hvalid : ValidBlock s.full b) (hrun : s.tracker.indexNextBlock b = some (.ok t)) :
    Growth origin u (s.afterStage b t) := by
  obtain ⟨depth, hinv, hdepth, hbelow⟩ := hgrowth.window
  obtain ⟨kept, hfull⟩ := hgrowth.memory
  have hgrown := hgrowth.grown_full
  obtain ⟨t', hrun', -, -, hinv'⟩ := hinv.stage hphase hvalid
  obtain ⟨t₁, hrun₁, hstaged⟩ := hinv.indexNextBlock hphase hvalid
  rw [hrun] at hrun' hrun₁
  obtain rfl := Except.ok.inj (Option.some.inj hrun')
  obtain rfl := Except.ok.inj (Option.some.inj hrun₁)
  have hmark := hfull.pushedMark (b := b) hgrowth.size hgrown hgrowth.mark
  have hsame : (s.afterStage b (t₁.advanceCursor b.hash s.full.length)).db = s.db := hstaged.db
  refine ⟨hstaged.undoBlocks.trans hgrowth.size, hgrowth.provenance, hgrowth.grown,
    fun hflushed => ?_, ⟨depth, hinv', hdepth, hbelow⟩,
    ⟨origin.window u (s.full.length + 1), ?_, hfull.push_le hgrown, le_rfl, Nat.min_le_right _ _,
      fun _ => Nat.min_le_left _ _⟩, ⟨?_, fun n hn => ?_, fun _ => ?_, ?_⟩, fun hpending => ?_, ?_⟩
  · rw [show (s.afterStage b _).phase = s.phase from rfl, hphase] at hflushed
    cases hflushed
  · exact hstaged.lastBlocks.trans (hfull.push hgrowth.size hgrown)
  · exact hstaged.mark.trans hmark
  · have hn' := hstaged.persisted.symm.trans hn
    rw [hmark, Option.some.injEq] at hn'
    rw [← hn']
    exact Origin.markRecord_succ hgrown
  · change t₁.db.effective .undoWatermark = origin.markRecord u (s.full.length + 1)
    have hbase : (stageBase s.tracker).db = s.tracker.db.db := by
      unfold stageBase
      split <;> rfl
    rw [effective, hstaged.stagedMark, hmark, hstaged.db, Origin.markRecord_succ hgrown]
    split
    · next hpersisted =>
        have hshown := hgrowth.mark.base (hinv.idle hphase)
        rwa [hgrowth.mark.persisted _ hpersisted, effective, hbase] at hshown
    · rfl
  · rw [hsame]
    exact hgrowth.mark.durable
  · rw [hsame]
    have hnil : s.tracker.pendingKMCleanup ++ _ = [] := hstaged.pending.symm.trans hpending
    exact hgrowth.queue (List.append_eq_nil_iff.mp hnil).1
  · rw [hsame]
    exact hgrowth.halt

/-- Flushing the batch. -/
theorem Growth.flush (hgrowth : Growth origin u s) (hphase : s.phase = .idle)
    (hstaged : s.staged ≠ []) {hash : Hash} (hhash : s.tracker.lastProcessedBlockHash = some hash)
    (hrun : s.tracker.commitBatch hash s.tracker.lastProcessedBlockIndex = .ok t) :
    Growth origin u { s with tracker := t, phase := .flushed, chain := s.full, staged := [] } := by
  obtain ⟨depth, hinv, hdepth, hbelow⟩ := hgrowth.window
  obtain ⟨kept, hfull⟩ := hgrowth.memory
  have hgrown := hgrowth.grown
  obtain ⟨hash', t', hhash', hrun', hundo, hlast, hframe, hinv'⟩ := hinv.flush hphase hstaged
  rw [hhash, Option.some.injEq] at hhash'
  subst hhash'
  rw [hrun] at hrun'
  obtain rfl := Except.ok.inj hrun'
  have hidle := hinv.idle hphase
  have hkept : kept ≤ depth + s.staged.length := by
    obtain ⟨kept', hwindow, -⟩ := hidle.window
    have hlength := congrArg List.length (hfull.last.symm.trans hwindow.last)
    rw [List.length_reverse, List.length_reverse, windowOf_length hfull.kept_le] at hlength
    have hle := List.length_take_le kept' s.full
    have := hwindow.le
    simp only [windowOf, List.length_map] at hlength
    omega
  have hlengthFull : s.full.length = s.staged.length + s.chain.length := List.length_append
  refine ⟨hundo.trans hgrowth.size, hgrowth.provenance, hgrowth.grown_full,
    fun _ => List.append_ne_nil_of_left_ne_nil hstaged _,
    ⟨_, hinv', hfull.full.trans hkept, ?_⟩,
    ⟨kept, hlast.trans hfull.last, hfull.kept_le, hfull.full, hfull.below,
      fun _ => hfull.trimmed (Or.inl hstaged)⟩,
    ⟨hframe.watermark.trans hgrowth.mark.memory,
      fun n hn => hgrowth.mark.persisted n (hframe.persisted.symm.trans hn),
      fun hne => absurd rfl hne, ?_⟩, fun hpending => ?_, ?_⟩
  · change depth + s.staged.length ≤ origin.depth + (s.full.length - origin.blocks)
    omega
  · exact (hframe.db _ (by simp) (by simp) (by simp)).trans (hgrowth.mark.batch hstaged)
  · have hpending' := hframe.pending.symm.trans hpending
    exact (hframe.queue hpending').trans (hgrowth.queue hpending')
  · have hunstaged := (hidle.batch hstaged).housekeeping .haltMarker rfl (by simp)
    refine (hframe.db .haltMarker (by simp) (by simp) (by simp)).trans ?_
    rw [effective, hunstaged, overlay_none]
    exact hgrowth.halt

/-- Cleaning up after the flush: the stored window is the in-memory one, and full, and nothing is
left queued. -/
theorem Growth.cleanup (hgrowth : Growth origin u s) (hphase : s.phase = .flushed)
    (hrun : s.tracker.cleanupAgedBlocks = .ok t) :
    InvAt { s with tracker := t.finishFlushedBlock, phase := .idle }
        (origin.window u s.chain.length) ∧
      Growth origin u { s with tracker := t.finishFlushedBlock, phase := .idle } ∧
      t.db.db[Key.pendingCleanup]? = none := by
  obtain ⟨depth, hinv, -⟩ := hgrowth.window
  obtain ⟨kept, hfull⟩ := hgrowth.memory
  obtain ⟨t', hrun', hundo, hlast, hframe, kept', -, -, hlast', hinv'⟩ := hinv.cleanup hphase
  rw [hrun] at hrun'
  obtain rfl := Except.ok.inj hrun'
  have hstaged : s.staged = [] := by
    have hloop := hinv.loop
    rw [LoopInv, hphase] at hloop
    exact hloop.staged
  have hchain := Sys.full_of_staged_nil hstaged
  have hkept : kept = origin.window u s.chain.length := by
    have hbelow := hfull.below
    have hge := hfull.full
    rw [hchain] at hbelow hge
    exact le_antisymm (le_min (hfull.trimmed (Or.inr hphase)) hbelow) hge
  have hkept' : kept' = kept := by
    have hlength := congrArg List.length (hlast'.symm.trans (hlast.trans hfull.last))
    rwa [List.length_reverse, List.length_reverse, windowOf_length hfull.kept_le,
      windowOf_length hinv'.durable.depth_le] at hlength
  have hqueue : t.db.db[Key.pendingCleanup]? = none := by
    rw [hframe.queue]
    split
    · next hpending => exact hgrowth.queue hpending
    · rfl
  rw [hkept', hkept] at hinv'
  refine ⟨hinv', ⟨hundo.trans hgrowth.size, hgrowth.provenance, hgrowth.grown,
    fun hflushed => (by cases hflushed), ⟨_, hinv', le_rfl, Nat.min_le_right _ _⟩,
    ⟨kept, hlast.trans hfull.last, hfull.kept_le, hfull.full, hfull.below,
      fun _ => hfull.trimmed (Or.inr hphase)⟩,
    ⟨hframe.watermark.trans hgrowth.mark.memory,
      fun n hn => hgrowth.mark.persisted n (hframe.persisted.symm.trans hn),
      fun hne => absurd hstaged hne, ?_⟩, fun _ => hqueue, ?_⟩, hqueue⟩
  · exact (hframe.db _ rfl (by simp)).trans hgrowth.mark.durable
  · exact (hframe.db _ rfl (by simp)).trans hgrowth.halt

/-- An empty queue read from a well-formed store is no queue. -/
theorem QueueWellFormed.none_of_load {db : Db} (hqueue : QueueWellFormed db)
    (hempty : (load db u).pendingKMCleanup = []) : db[Key.pendingCleanup]? = none := by
  have hempty' : storedPendingCleanup (createDatabase db) = [] := hempty
  unfold storedPendingCleanup at hempty'
  cases hrecord : db[Key.pendingCleanup]? with
  | none => rfl
  | some value =>
      obtain ⟨hashes, hne, rfl⟩ := hqueue value hrecord
      rw [show (createDatabase db).db = db from rfl, hrecord] at hempty'
      exact absurd hempty' hne

/-- What a start reads of the mark. -/
theorem MarkInv.of_load (hstaged : s.staged = []) (hload : load s.db u = s.tracker)
    (hdurable : s.db[Key.undoWatermark]? = origin.markRecord u s.chain.length) :
    MarkInv origin u s := by
  have hstored : storedWatermark (createDatabase s.db) =
      storedMark (origin.markRecord u s.chain.length) :=
    (storedWatermark_eq _).trans (congrArg storedMark hdurable)
  have hfull := Sys.full_of_staged_nil hstaged
  refine ⟨?_, fun n hn => ?_, fun hne => absurd hstaged hne, hdurable⟩
  · rw [hfull, ← hload, ← Origin.storedMark_markRecord, ← hstored]
    rfl
  · rw [← hload] at hn
    have hn' : (if 0 < storedWatermark (createDatabase s.db) then
        some (storedWatermark (createDatabase s.db)) else none) = some n := hn
    rw [hstored, Option.ite_none_right_eq_some, Option.some.injEq] at hn'
    rw [hfull, ← hn'.2]
    exact record_of_storedMark hn'.1

/-- A restart with the same window size. -/
theorem Growth.restart (hgrowth : Growth origin u s) (hrun : start s.db u = .ok t) :
    Growth origin u { s with tracker := t, phase := .idle, staged := [] } := by
  obtain ⟨depth, hinv, hdepth, hbelow⟩ := hgrowth.window
  have hinv' := hinv.restart hrun
  rw [hinv.durable.start] at hrun
  obtain rfl := Except.ok.inj hrun
  obtain ⟨-, hlast⟩ := hinv.durable.load u
  refine ⟨rfl, hgrowth.provenance, hgrowth.grown, fun hflushed => (by cases hflushed),
    ⟨depth, hinv', hdepth, hbelow⟩, ⟨depth, hlast, hinv.durable.depth_le, hdepth, hbelow, ?_⟩,
    .of_load rfl rfl hgrowth.mark.durable, hinv.durable.queue.none_of_load, hgrowth.halt⟩
  rintro (hne | hflushed)
  · exact absurd rfl hne
  · cases hflushed

/-- **The step lemma** of growth. -/
theorem Growth.step {s' : Sys} (hgrowth : Growth origin u s)
    (hphase : s.phase = .idle ∨ s.phase = .flushed) (hstep : IndexStep u s s') :
    Growth origin u s' := by
  obtain ⟨hstep, hphase', hundo⟩ := hstep
  cases hstep with
  | stage hidle hvalid hrun => exact hgrowth.stage hidle hvalid hrun
  | flush hidle hstaged hhash hrun => exact hgrowth.flush hidle hstaged hhash hrun
  | cleanup hflushed hrun => exact (hgrowth.cleanup hflushed hrun).2.1
  | restart hrun =>
      have hsize := hrun
      obtain ⟨depth, hinv, -⟩ := hgrowth.window
      rw [hinv.durable.start] at hsize
      obtain rfl := Except.ok.inj hsize
      obtain rfl : _ = u := hundo
      exact hgrowth.restart hrun
  -- The other steps enter a walk back, or start in one.
  | stageFailed _ _ _ | mismatch _ | tipBelow _ | rollBackToNodeTip _ _ _ _ | walkReturned _ _
  | walkRefused _ _ | walkFailed _ _ _ => simp at hphase'
  | walkNext hother _ | repair hother _ _ | finishMismatch hother _ | finishTipBelow hother =>
      rw [hother] at hphase
      simp at hphase

/-- **The run lemma** of growth. -/
theorem Growth.run {s' : Sys} (hgrowth : Growth origin u s) (hidle : s.phase = .idle)
    (hrun : Relation.ReflTransGen (IndexStep u) s s') :
    Growth origin u s' ∧ (s'.phase = .idle ∨ s'.phase = .flushed) := by
  induction hrun with
  | refl => exact ⟨hgrowth, Or.inl hidle⟩
  | tail _ hstep ih => exact ⟨ih.1.step ih.2 hstep, hstep.2.1⟩

/-! ### Setting out -/

/-- A start, at any window size, on the store of any state in the invariant. -/
theorem InvAt.growth (hinv : InvAt s depth) (hrun : start s.db u = .ok t) :
    Growth (s.origin depth) u { s with tracker := t, phase := .idle, staged := [] } := by
  have hinv' := hinv.restart hrun
  rw [hinv.durable.start] at hrun
  obtain rfl := Except.ok.inj hrun
  obtain ⟨-, hlast⟩ := hinv.durable.load u
  have hwindow : (s.origin depth).window u s.chain.length ≤ depth := by
    simp [Origin.window, Sys.origin]
  have hbelow : depth ≤ (s.origin depth).depth + (s.chain.length - (s.origin depth).blocks) :=
    Nat.le_add_right _ _
  refine ⟨rfl, rfl, le_rfl, fun hflushed => (by cases hflushed), ⟨depth, hinv', hwindow, hbelow⟩,
    ⟨depth, hlast, hinv.durable.depth_le, hwindow, hbelow, ?_⟩, .of_load rfl rfl ?_,
    hinv.durable.queue.none_of_load, rfl⟩
  · rintro (hne | hflushed)
    · exact absurd rfl hne
    · cases hflushed
  · exact (if_pos rfl).symm

/-- The stamped empty store. -/
theorem FromEmptyAt.growth (hinit : FromEmptyAt u s) : Growth .nothing u s := by
  obtain ⟨⟨undoBlocks, hstart, hphase, hchain, hstaged, hprovenance, -⟩, hsize⟩ := hinit
  rw [start_empty, Except.ok.injEq] at hstart
  obtain rfl : undoBlocks = u := by
    rw [← hsize, ← hstart]
    rfl
  have hdb : s.db = setLayoutVersion ∅ := by
    rw [Sys.db, ← hstart]
    rfl
  have hdurable : Durable s.provenance s.chain 0 s.db := by
    rw [hprovenance, hchain, hdb]
    exact durable_stamped
  have hload : load s.db undoBlocks = s.tracker := by rw [hdb, hstart]
  have hinv : InvAt s 0 :=
    hdurable.inv_of_start ((hdurable.start undoBlocks).trans (congrArg _ hload)) hphase hstaged
      fun k hash _ hmem => by simp at hmem
  obtain ⟨-, hlast⟩ := hdurable.load undoBlocks
  rw [hload] at hlast
  have hfull : s.full = [] := by rw [Sys.full_of_staged_nil hstaged, hchain]
  refine ⟨hsize, hprovenance, Nat.zero_le _, fun hflushed => ?_,
    ⟨0, hinv, by simp [Origin.window, Origin.nothing, hchain], Nat.zero_le _⟩,
    ⟨0, by rw [hlast, hfull, hchain], Nat.zero_le _, by simp [Origin.window, Origin.nothing, hfull],
      Nat.zero_le _, fun _ => Nat.zero_le _⟩, .of_load hstaged hload ?_, fun hpending => ?_, ?_⟩
  · rw [hphase] at hflushed
    cases hflushed
  · rw [hdb, hchain]
    simp [Origin.markRecord, Origin.nothing, setLayoutVersion]
  · rw [← hload] at hpending
    exact hdurable.queue.none_of_load hpending
  · rw [hdb]
    simp [Origin.nothing, setLayoutVersion]

theorem growth_of_reachable
    (hreach : Transition.Reachable (FromEmptyAt u) (IndexStep u) s) : Growth .nothing u s := by
  refine (hreach.invariant
    (fun s hinit => ?_ : ∀ s, FromEmptyAt u s →
      Growth .nothing u s ∧ (s.phase = .idle ∨ s.phase = .flushed))
    fun s s' hinv hstep => ⟨hinv.1.step hinv.2 hstep, hstep.2.1⟩).1
  have hgrowth := hinit.growth
  obtain ⟨⟨_, _, hphase, _⟩, _⟩ := hinit
  exact ⟨hgrowth, Or.inl hphase⟩

end Steps

end UtxoTracker

import UtxoTracker.Safety.UtxoSet
/-!
# The undo window is complete and exact

The `N` records are the newest blocks of the committed chain. Each of these blocks has the recovery
records its indexing staged, and no other block has any. A flush with its cleanup leaves at most
`undoBlocks` of them.
-/

namespace UtxoTracker

open KeyedStore LevelUpStore Provenance Tracker

/-- The recovery records on disk are the staged ones, inside the window, and absent outside. -/
theorem InvAt.undo_records {s : Sys} {depth : Nat} (hinv : InvAt s depth) {k : Key} {hash : Hash}
    (hundo : k.undoBlock = some hash) :
    (hash ∈ windowOf s.chain depth → s.db[k]? = s.wrote k ∧
        s.wrote k = (blockAt s.chain hash).bind fun found =>
          s.provenance.undoRecord found.1 found.2 k) ∧
      (hash ∉ windowOf s.chain depth → s.db[k]? = none) := by
  have hmeta : k.isMeta = false := by cases k <;> first | rfl | cases hundo
  rw [hinv.durable.indexes k hmeta, windowRecord_eq_record hundo]
  refine ⟨fun hmem => ?_, fun hnotMem => if_neg hnotMem⟩
  have hwrote := hinv.wrote k hash hundo (by
    rw [windowOf_append]
    exact List.mem_append_right _ hmem)
  rw [blockAt_append hinv.valid (mem_windowOf hmem)] at hwrote
  exact ⟨by rw [windowRecord, if_pos hmem, hwrote], hwrote⟩

/-- **The undo window is complete and exact** in every durable state of every run, and a completed
flush with its cleanup leaves no record outside the last `undoBlocks` blocks. -/
theorem undo_window_exact {s : Sys} (hreach : Transition.Reachable FromEmpty Step s) :
    ∃ depth ≤ s.chain.length,
      TipPointer s.db s.chain ∧
      (∀ hash, s.db[Key.storedBlk hash]? =
        if hash ∈ windowOf s.chain depth then some .empty else none) ∧
      (∀ (k : Key) hash, k.undoBlock = some hash → hash ∈ windowOf s.chain depth →
        s.db[k]? = s.wrote k ∧ s.wrote k = (blockAt s.chain hash).bind fun found =>
          Provenance.live.undoRecord found.1 found.2 k) ∧
      (∀ (k : Key) hash, k.undoBlock = some hash → hash ∉ windowOf s.chain depth →
        s.db[k]? = none) ∧
      (s.phase = .flushed → ∃ t, s.tracker.cleanupAgedBlocks = .ok t ∧
        ∃ kept ≤ s.tracker.undoBlocks, t.lastBlocks = (windowOf s.chain kept).reverse ∧
          (∀ hash, t.db.db[Key.storedBlk hash]? =
            if hash ∈ windowOf s.chain kept then some .empty else none) ∧
          ∀ (k : Key) hash, k.undoBlock = some hash →
            t.db.db[k]? = if hash ∈ windowOf s.chain kept then s.wrote k else none) := by
  obtain ⟨depth, hinv⟩ := reachable_inv hreach
  have hlive := reachable_live hreach
  refine ⟨depth, hinv.durable.depth_le, hinv.durable.tip, fun hash => ?_,
    fun k hash hundo hmem => ?_, fun k hash hundo => (hinv.undo_records hundo).2, fun hphase => ?_⟩
  · rw [hinv.durable.indexes _ rfl, record]
  · have hrecords := (hinv.undo_records hundo).1 hmem
    rwa [hlive] at hrecords
  · obtain ⟨t, hrun, -, -, -, kept, hkept, -, hlast, hinv'⟩ := hinv.cleanup hphase
    refine ⟨t, hrun, kept, hkept, hlast, fun hash => ?_, fun k hash hundo => ?_⟩
    · have hstored := hinv'.durable.indexes (.storedBlk hash) rfl
      exact hstored
    · have hrecords := hinv'.undo_records hundo
      split
      · next hmem => exact (hrecords.1 hmem).1
      · next hnotMem => exact hrecords.2 hnotMem

/-- The stored window of a run that indexes two blocks. -/
theorem undo_window_exact_spending :
    ∃ s depth, Transition.Reachable FromEmpty Step s ∧ s.chain = [spendingBlock, firstBlock] ∧
      depth ≤ 2 ∧ ∀ hash, s.db[Key.storedBlk hash]? =
        if hash ∈ windowOf [spendingBlock, firstBlock] depth then some .empty else none := by
  obtain ⟨s, hreach, -, -, hchain, -, -⟩ := reachable_of_valid validChain_spending 1
  obtain ⟨depth, hdepth, -, hstored, -⟩ := undo_window_exact hreach
  rw [hchain] at hdepth hstored
  exact ⟨s, depth, hreach, hchain, hdepth, hstored⟩

end UtxoTracker

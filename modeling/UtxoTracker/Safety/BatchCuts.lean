import UtxoTracker.Proof.Growth
/-!
# Batch cuts leave no trace

Where the loop flushes, after each block, when the batch is full, under heap pressure or at the tip,
is invisible in the store: two runs that index the same blocks from the same store end in the same
database, whatever their cuts.
-/

namespace UtxoTracker

open KeyedStore LevelUpStore Provenance Tracker

/-! ### Every cut is a run -/

section Cuts

variable {origin : Origin} {u : Nat} {s : Sys}

/-- Staging one block after another. -/
theorem Growth.staged_of_valid (hgrowth : Growth origin u s) (hidle : s.phase = .idle) {batch : Chain}
    (hvalid : ValidChain (batch ++ s.full)) :
    ∃ s', Relation.ReflTransGen (IndexStep u) s s' ∧ s'.phase = .idle ∧
      s'.staged = batch ++ s.staged ∧ s'.chain = s.chain := by
  induction batch with
  | nil => exact ⟨s, .refl, hidle, rfl, rfl⟩
  | cons b rest ih =>
      obtain ⟨s', hrun, hidle', hstaged, hchain⟩ := ih hvalid.2
      have hgrowth' := (hgrowth.run hidle hrun).1
      obtain ⟨depth, hinv, -⟩ := hgrowth'.window
      have hblock : ValidBlock s'.full b := by
        rw [Sys.full, hstaged, hchain, List.append_assoc]
        exact hvalid.1
      obtain ⟨t, hindex, hundo, -, -⟩ := hinv.stage hidle' hblock
      refine ⟨_, hrun.tail ⟨.stage hidle' hblock hindex, Or.inl hidle', hundo.trans hgrowth'.size⟩,
        hidle', ?_, hchain⟩
      rw [Sys.afterStage, hstaged, List.cons_append]

/-- Staging a batch and flushing it. -/
theorem Growth.flushed_of_valid (hgrowth : Growth origin u s) (hidle : s.phase = .idle)
    (hstaged : s.staged = []) {batch : Chain} (hne : batch ≠ [])
    (hvalid : ValidChain (batch ++ s.chain)) :
    ∃ s', Relation.ReflTransGen (IndexStep u) s s' ∧ s'.phase = .flushed ∧ s'.staged = [] ∧
      s'.chain = batch ++ s.chain := by
  rw [← Sys.full_of_staged_nil hstaged] at hvalid
  obtain ⟨s₁, hrun, hidle₁, hstaged₁, hchain₁⟩ := hgrowth.staged_of_valid hidle hvalid
  rw [hstaged, List.append_nil] at hstaged₁
  have hgrowth₁ := (hgrowth.run hidle hrun).1
  obtain ⟨depth, hinv, -⟩ := hgrowth₁.window
  have hne₁ : s₁.staged ≠ [] := hstaged₁ ▸ hne
  obtain ⟨hash, t, hhash, hcommit, hundo, -⟩ := hinv.flush hidle₁ hne₁
  refine ⟨_, hrun.tail ⟨.flush hidle₁ hne₁ hhash hcommit, Or.inr rfl, hundo.trans hgrowth₁.size⟩,
    rfl, rfl, ?_⟩
  rw [Sys.full, hstaged₁, hchain₁]

/-- **Every cut is a run.** A valid extension of the committed chain can be indexed one batch after
another, the newest batch first in the list, up to the last flush. -/
theorem Growth.flushed_of_cut (hgrowth : Growth origin u s) (hidle : s.phase = .idle)
    (hstaged : s.staged = []) (batch : Chain) (older : List Chain) (hne : batch ≠ [])
    (hnonempty : ∀ other ∈ older, other ≠ [])
    (hvalid : ValidChain (batch ++ (older.flatten ++ s.chain))) :
    ∃ s' t, Relation.ReflTransGen (IndexStep u) s s' ∧ s'.phase = .flushed ∧
      s'.chain = batch ++ (older.flatten ++ s.chain) ∧ s'.tracker.cleanupAgedBlocks = .ok t ∧
      Relation.ReflTransGen (IndexStep u) s
        { s' with tracker := t.finishFlushedBlock, phase := .idle } := by
  induction older generalizing batch with
  | nil =>
      obtain ⟨s', hrun, hflushed, -, hchain⟩ :=
        hgrowth.flushed_of_valid hidle hstaged hne (by simpa using hvalid)
      have hgrowth' := (hgrowth.run hidle hrun).1
      obtain ⟨depth, hinv, -⟩ := hgrowth'.window
      obtain ⟨t, hcleanup, hundo, -⟩ := hinv.cleanup hflushed
      exact ⟨s', t, hrun, hflushed, by simpa using hchain, hcleanup,
        hrun.tail ⟨.cleanup hflushed hcleanup, Or.inl rfl, hundo.trans hgrowth'.size⟩⟩
  | cons below older ih =>
      rw [List.flatten_cons, List.append_assoc] at hvalid ⊢
      obtain ⟨s₁, t₁, hrun₁, hflushed₁, hchain₁, hcleanup₁, hcleaned₁⟩ :=
        ih below (hnonempty below List.mem_cons_self)
          (fun other hmem => hnonempty other (List.mem_cons_of_mem _ hmem)) hvalid.below
      have hgrowth₁ := (hgrowth.run hidle hrun₁).1
      obtain ⟨depth, hinv, -⟩ := hgrowth₁.window
      have hstaged₁ : s₁.staged = [] := by
        have hloop := hinv.loop
        rw [LoopInv, hflushed₁] at hloop
        exact hloop.staged
      have hgrowth₂ := (hgrowth.run hidle hcleaned₁).1
      obtain ⟨s', hrun, hflushed, -, hchain⟩ :=
        hgrowth₂.flushed_of_valid rfl hstaged₁ hne (by simpa [hchain₁] using hvalid)
      have hgrowth' := (hgrowth₂.run rfl hrun).1
      obtain ⟨depth', hinv', -⟩ := hgrowth'.window
      obtain ⟨t, hcleanup, hundo, -⟩ := hinv'.cleanup hflushed
      refine ⟨s', t, hcleaned₁.trans hrun, hflushed, ?_, hcleanup,
        (hcleaned₁.trans hrun).tail
          ⟨.cleanup hflushed hcleanup, Or.inl rfl, hundo.trans hgrowth'.size⟩⟩
      rw [hchain, hchain₁]

end Cuts

/-! ### The same store -/

/-- A store is known by its chain, its window, its watermark, its halt marker and its empty queue. -/
theorem Durable.db_eq {p : Provenance} {chain : Chain} {depth : Nat} {db db' : Db}
    (hdurable : Durable p chain depth db) (hdurable' : Durable p chain depth db') (hne : chain ≠ [])
    (hmark : db[Key.undoWatermark]? = db'[Key.undoWatermark]?)
    (hhalt : db[Key.haltMarker]? = db'[Key.haltMarker]?)
    (hqueue : db[Key.pendingCleanup]? = db'[Key.pendingCleanup]?) : db = db' := by
  obtain ⟨b, rest, rfl⟩ := List.exists_cons_of_ne_nil hne
  refine Std.ExtTreeMap.ext_getElem? fun k => ?_
  cases hmeta : k.isMeta with
  | false => rw [hdurable.indexes k hmeta, hdurable'.indexes k hmeta]
  | true =>
      cases k with
      | lastBlockHash => rw [hdurable.tip.2, hdurable'.tip.2]
      | lastBlockHeight => rw [hdurable.tip.1, hdurable'.tip.1]
      | layoutVersion => rw [hdurable.stamp, hdurable'.stamp]
      | undoWatermark => exact hmark
      | haltMarker => exact hhalt
      | pendingCleanup => exact hqueue
      | _ => cases hmeta

end UtxoTracker

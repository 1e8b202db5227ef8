import UtxoTracker.Safety.UndoWindow
/-!
# Rolling back undoes indexing

Committed rollbacks of the tip, as many as the window allows, leave the records of a store that
indexed the shorter chain alone, and leave the recovery records of the blocks still in the window as
indexing staged them.
-/

namespace UtxoTracker

open KeyedStore LevelUpStore Provenance Tracker

/-- A number of committed `rollBackTipBlock` steps, each on the committed tip. -/
inductive RollsBack : Nat → Tracker → Tracker → Prop where
  | done {t : Tracker} : RollsBack 0 t t
  | step {n : Nat} {t t' t'' : Tracker} {hash : Hash} {record : BlockRecord} {retryCount : Nat}
      (hhash : t.db.getLastBlockHash = some hash) (hrecord : t.db.getBlock hash = some record)
      (hrun : t.rollBackTipBlock hash record retryCount true = (t', .ok true))
      (hrest : RollsBack n t' t'') : RollsBack (n + 1) t t''

/-- The families that index the chain as a whole. -/
def Key.isIndex : Key → Bool
  | .scriptBlk _ | .tx _ | .txExact _ | .block _ => true
  | _ => false

/-- **The run lemma of rolling back.** -/
theorem RollsBack.spec {n depth : Nat} {chain : Chain} {t : Tracker}
    (hdurable : Durable Provenance.live chain depth t.db.db)
    (hlast : t.lastBlocks = (windowOf chain depth).reverse) (hn : n ≤ depth) :
    (∃ t', RollsBack n t t') ∧ ∀ t', RollsBack n t t' →
      Durable Provenance.live (chain.drop n) (depth - n) t'.db.db ∧
        t'.lastBlocks = (windowOf (chain.drop n) (depth - n)).reverse ∧
        (0 < n → chain.drop n = [] → ∀ first ∈ chain.getLast?,
          t'.db.db[Key.lastBlockHeight]? = some (.hexText (-1)) ∧
            t'.db.db[Key.lastBlockHash]? = some (.hashText first.prevHash)) := by
  induction n generalizing chain depth t with
  | zero =>
      refine ⟨⟨t, .done⟩, fun t' hrolled => ?_⟩
      cases hrolled
      exact ⟨hdurable, hlast, fun hpos => absurd hpos (lt_irrefl 0)⟩
  | succ n ih =>
      obtain ⟨left, rfl⟩ : ∃ left, depth = left + 1 := ⟨depth - 1, by omega⟩
      obtain ⟨b, rest, rfl⟩ : ∃ b rest, chain = b :: rest := by
        refine List.exists_cons_of_ne_nil fun hnil => ?_
        have := hdurable.depth_le
        rw [hnil] at this
        simp at this
      have hstep := fun retryCount => hdurable.rollBackTipBlock hlast retryCount
      have hspec : ∀ retryCount t', t.rollBackTipBlock b.hash (tipRecord b rest) retryCount true =
          (t', .ok true) → RolledBack Provenance.live b rest left t.db t'.db ∧
            t'.lastBlocks = (windowOf rest left).reverse := by
        intro retryCount t' hrun
        obtain ⟨σ', hrun', hrolled⟩ := hstep retryCount
        rw [hrun'] at hrun
        obtain ⟨rfl, -⟩ := Prod.mk.inj hrun
        exact ⟨hrolled, rfl⟩
      have hbelow : ∀ t' : Tracker, RolledBack Provenance.live b rest left t.db t'.db →
          Durable Provenance.live rest left t'.db.db := by
        intro t' hrolled
        have hdurable' := hrolled.durable
        rwa [unwind_live] at hdurable'
      constructor
      · obtain ⟨σ', hrun, hrolled⟩ := hstep 0
        obtain ⟨t'', hrest⟩ :=
          (ih (t := { t with lastBlocks := (windowOf rest left).reverse, db := σ' })
            (hbelow _ hrolled) rfl (Nat.le_of_succ_le_succ hn)).1
        exact ⟨t'', .step hdurable.getLastBlockHash hdurable.getBlock_tip hrun hrest⟩
      · rintro t'' (_ | ⟨hhash, hrecord, hrun, hrest⟩)
        rw [hdurable.getLastBlockHash, Option.some.injEq] at hhash
        subst hhash
        rw [hdurable.getBlock_tip, Option.some.injEq] at hrecord
        subst hrecord
        obtain ⟨hrolled, hlast'⟩ := hspec _ _ hrun
        obtain ⟨hdurable', hlast'', htip⟩ :=
          (ih (hbelow _ hrolled) hlast' (Nat.le_of_succ_le_succ hn)).2 _ hrest
        have hdepth : left + 1 - (n + 1) = left - n := by omega
        rw [List.drop_succ_cons, hdepth]
        refine ⟨hdurable', hlast'', fun _ hnil first hfirst => ?_⟩
        cases rest with
        | nil =>
            obtain rfl : b = first := by simpa using hfirst
            have hzero : n = 0 := by
              have hle := hdurable.depth_le
              rw [List.length_singleton] at hle
              omega
            subst hzero
            cases hrest
            exact ⟨by simpa using hrolled.height, hrolled.hash⟩
        | cons c below =>
            have hpos : 0 < n := by
              rw [List.drop_eq_nil_iff, List.length_cons] at hnil
              omega
            exact htip hpos hnil first (by simpa using hfirst)

/-- The value at a key of an index family depends on the chain alone. -/
theorem Provenance.record_of_isIndex (p : Provenance) (chain : Chain) (window window' : List Hash)
    {k : Key} (hk : k.isIndex = true) : p.record chain window k = p.record chain window' k := by
  cases k <;> first | rfl | cases hk

/-- Two stores of the same non-empty chain have the same tip pointer. -/
theorem TipPointer.eq {db db' : Db} {chain : Chain} (htip : TipPointer db chain)
    (htip' : TipPointer db' chain) (hchain : chain ≠ []) :
    db[Key.lastBlockHeight]? = db'[Key.lastBlockHeight]? ∧
      db[Key.lastBlockHash]? = db'[Key.lastBlockHash]? := by
  cases chain with
  | nil => exact absurd rfl hchain
  | cons b rest => exact ⟨htip.1.trans htip'.1.symm, htip.2.trans htip'.2.symm⟩

/-- A settled state's window is the stored one. -/
theorem InvAt.settled_last {s : Sys} {depth : Nat} (hinv : InvAt s depth) (hphase : s.phase = .idle)
    (hstaged : s.staged = []) : s.tracker.lastBlocks = (windowOf s.chain depth).reverse := by
  obtain ⟨kept, hwindow, hkept⟩ := (hinv.idle hphase).window
  rw [if_pos hstaged] at hkept
  subst hkept
  have hlast := hwindow.last
  rwa [Sys.full_of_staged_nil hstaged] at hlast

/-- The recovery records of a block in the window are the ones its indexing calls for. -/
theorem Durable.undo_record {p : Provenance} {chain : Chain} {depth : Nat} {db : Db}
    (hdurable : Durable p chain depth db) {k : Key} {hash : Hash} (hundo : k.undoBlock = some hash)
    (hmem : hash ∈ windowOf chain depth) :
    db[k]? = (blockAt chain hash).bind fun found => p.undoRecord found.1 found.2 k := by
  have hmeta : k.isMeta = false := by cases k <;> first | rfl | cases hundo
  rw [hdurable.indexes k hmeta, windowRecord_eq_record hundo, windowRecord, if_pos hmem]

theorem windowOf_split {chain : Chain} {n depth : Nat} (hle : n ≤ depth) :
    windowOf chain depth = windowOf chain n ++ windowOf (chain.drop n) (depth - n) := by
  rw [windowOf, windowOf, windowOf, ← List.map_append, ← List.take_add, Nat.add_sub_cancel' hle]

end UtxoTracker

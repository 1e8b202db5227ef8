import UtxoTracker.Bulk.Seeded
import UtxoTracker.Proof.Seed
import UtxoTracker.Proof.Steps
/-!
# Entering the loop

A start on a durable store, whether empty, live-indexed or bulk-loaded, enters the loop in the system
invariant.
-/

namespace UtxoTracker

open KeyedStore LevelUpStore Provenance Tracker Bulk

/-! ### Starting from nothing -/

theorem start_empty (undoBlocks : Nat) :
    Tracker.start ∅ undoBlocks = .ok (Tracker.load (setLayoutVersion ∅) undoBlocks) := by
  simp [Tracker.start, ensureLayoutVersion, getLayoutVersion, bind, Except.bind]

/-- The system as it starts on an empty path. -/
def Sys.empty (undoBlocks : Nat) : Sys :=
  { tracker := load (setLayoutVersion ∅) undoBlocks
    phase := .idle
    chain := []
    staged := []
    provenance := .live
    wrote := fun _ => none }

theorem fromEmpty_empty (undoBlocks : Nat) : FromEmpty (Sys.empty undoBlocks) :=
  ⟨undoBlocks, start_empty undoBlocks, rfl, rfl, rfl, rfl, rfl⟩

/-- The stamped empty store indexes the empty chain. -/
theorem durable_stamped : Durable Provenance.live [] 0 (setLayoutVersion ∅) := by
  have hkey : ∀ k : Key, (setLayoutVersion ∅)[k]? =
      if k = .layoutVersion then some (.text "2") else none := by
    intro k
    rw [setLayoutVersion, Std.ExtTreeMap.getElem?_insert]
    by_cases hk : k = .layoutVersion
    · simp [hk]
    · have hne : compare Key.layoutVersion k ≠ .eq :=
        fun heq => hk (Std.LawfulEqOrd.eq_of_compare heq).symm
      simp [hne, hk]
  refine ⟨trivial, ⟨le_rfl, by simp [Provenance.live], by simp⟩, fun k hmeta => ?_, Or.inl ⟨?_, ?_⟩,
    ?_, fun value hget => ?_, le_rfl⟩
  · have hne : k ≠ .layoutVersion := by
      rintro rfl
      cases hmeta
    rw [hkey, if_neg hne]
    cases k <;> simp [record, blockAt, txBlock, firstSeen, coins, utxo, deltas, Ledger.replay,
      windowRecord]
  · simp [hkey]
  · simp [hkey]
  · simp [hkey]
  · simp [hkey] at hget

/-- **A start on a durable store** enters the loop in the invariant. -/
theorem Durable.inv_of_start {s : Sys} {depth undoBlocks : Nat} {db : Db}
    (hdurable : Durable s.provenance s.chain depth db)
    (hstart : Tracker.start db undoBlocks = .ok s.tracker) (hphase : s.phase = .idle)
    (hstaged : s.staged = []) (hwrote : WroteInv s depth) : InvAt s depth := by
  rw [hdurable.start, Except.ok.injEq] at hstart
  have hfull := Sys.full_of_staged_nil hstaged
  have hdb : s.db = db := by
    rw [Sys.db, ← hstart]
    rfl
  obtain ⟨hcursor, hlast⟩ := hdurable.load undoBlocks
  rw [hstart] at hcursor hlast
  refine ⟨hdb ▸ hdurable, hfull ▸ hdurable.valid, ?_, fun script hscript => ?_, ?_, ?_, ?_⟩
  · rw [hfull, hstaged]
    exact hdurable.fits
  · rw [← hstart] at hscript
    simp [Tracker.load, LevelUpStore.createDatabase] at hscript
  · refine cacheInv_empty ?_
    rw [← hstart]
    rfl
  · rw [hstaged]
    exact hwrote
  · rw [LoopInv, hphase]
    refine IdleInv.of_settled hstaged hcursor ?_ hlast
    rw [← hstart]
    rfl

theorem FromEmpty.inv {s : Sys} (hinit : FromEmpty s) : Inv s := by
  obtain ⟨undoBlocks, hstart, hphase, hchain, hstaged, hprovenance, -⟩ := hinit
  have hstart' : Tracker.start (setLayoutVersion ∅) undoBlocks = .ok s.tracker := by
    rw [durable_stamped.start, ← start_empty]
    exact hstart
  refine ⟨0, Durable.inv_of_start (hprovenance ▸ hchain ▸ durable_stamped) hstart' hphase hstaged
    fun k hash _ hmem => ?_⟩
  simp at hmem

/-! ### Starting after a bulk load -/

/-- Only a store without data is loaded. -/
theorem fresh_of_bulkSync {opts : BulkOptions} {dumps : List Dump} {db db' : Db}
    (hrun : bulkSync opts dumps db = .ok db') : holdsNothingButCurrentStamp db = true := by
  unfold bulkSync at hrun
  by_contra hfresh
  simp only [loadKeys, if_neg hfresh, Except.mapError, bind, Except.bind] at hrun
  split at hrun <;> cases hrun

theorem FromSeed.seededStore {s : Sys} (hinit : FromSeed s) :
    ∃ (opts : BulkOptions) (db' : Db) (undoBlocks : Nat),
      SeededStore s.chain opts.undoBlocks opts.txIndex db' ∧
        start db' undoBlocks = .ok s.tracker ∧ s.phase = .idle ∧ s.staged = [] ∧
        s.provenance = Provenance.bulk s.chain.length opts.txIndex ∧ s.wrote = fun k => db'[k]? := by
  obtain ⟨dumps, opts, db, db', undoBlocks, hvalid, hne, hdumps, hrun, hrest⟩ := hinit
  have hbulk := bulkSync_chain opts hvalid hne hdumps (fresh_of_bulkSync hrun)
  split at hbulk
  · rw [hrun] at hbulk
    cases hbulk
  · obtain ⟨db'', hrun', hstore⟩ := hbulk
    rw [hrun] at hrun'
    obtain rfl := Except.ok.inj hrun'
    exact ⟨opts, db', undoBlocks, hstore, hrest⟩

theorem FromSeed.inv {s : Sys} (hinit : FromSeed s) : Inv s := by
  obtain ⟨opts, db', undoBlocks, hstore, hstart, hphase, hstaged, hprovenance, hwrote⟩ :=
    hinit.seededStore
  have hdurable := hstore.durable
  rw [← hprovenance] at hdurable
  refine ⟨_, hdurable.inv_of_start hstart hphase hstaged fun k hash hundo hmem => ?_⟩
  have hmeta : k.isMeta = false := by cases k <;> first | rfl | cases hundo
  rw [Sys.full_of_staged_nil hstaged] at hmem ⊢
  rw [hwrote]
  exact (hdurable.indexes k hmeta).trans
    ((windowRecord_eq_record hundo).trans (by rw [windowRecord, if_pos hmem]))

theorem FromStore.inv {s : Sys} (hinit : FromStore s) : Inv s :=
  hinit.elim FromEmpty.inv FromSeed.inv

end UtxoTracker

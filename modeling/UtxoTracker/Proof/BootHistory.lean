import UtxoTracker.Bulk.BootHistory
import UtxoTracker.Proof.Start
/-!
# The tip pointer along a run

A store without a tip pointer is one that no flush has reached. It holds the stamp and nothing else,
unless the loop dropped a batch and stored the queue of its aged-out blocks.
-/

namespace UtxoTracker

open KeyedStore LevelUpStore Provenance Tracker Bulk

section Tip

variable {p : Provenance} {chain : Chain} {depth : Nat} {db : Db} {s s' : Sys} {t t' : Tracker}

theorem Durable.tip_ne_none (hdurable : Durable p chain depth db) (hne : chain ≠ []) :
    db[Key.lastBlockHash]? ≠ none := by
  have htip := hdurable.tip
  obtain ⟨b, rest, rfl⟩ := List.exists_cons_of_ne_nil hne
  simp [htip.2]

/-- A stored tip pointer stands on the tip of the chain. -/
theorem Durable.tipCommitted (hdurable : Durable p chain depth db)
    (htip : db[Key.lastBlockHash]? ≠ none) : TipCommitted db chain := by
  have hpointer := hdurable.tip
  cases chain with
  | nil =>
      rcases hpointer with ⟨-, hnone⟩ | ⟨hheight, hash, hhash⟩
      · exact absurd hnone htip
      · exact ⟨hheight, hash, hhash, fun b hb => nomatch hb⟩
  | cons b rest =>
      refine ⟨?_, b.hash, hpointer.2, fun c hc => ?_⟩
      · rw [hpointer.1, List.length_cons]
        simp
      · obtain rfl : b = c := by simpa using hc
        rfl

/-- What is stored before the first flush, and which phases come after it. -/
structure TipInv (s : Sys) : Prop where
  untouched : s.db[Key.lastBlockHash]? = none → s.db = setLayoutVersion ∅
  busy : s.phase = .flushed ∨ (∃ entry, s.phase = .walked entry) →
    s.db[Key.lastBlockHash]? ≠ none

theorem TipInv.of_db (htip : TipInv s) (hdb : s'.db = s.db)
    (hphase : s'.phase = .flushed ∨ (∃ entry, s'.phase = .walked entry) →
      s.db[Key.lastBlockHash]? ≠ none) : TipInv s' := by
  refine ⟨fun hnone => ?_, fun hbusy => ?_⟩
  · rw [hdb] at hnone ⊢
    exact htip.untouched hnone
  · rw [hdb]
    exact hphase hbusy

theorem TipInv.of_tip (htip : s.db[Key.lastBlockHash]? ≠ none) : TipInv s :=
  ⟨fun hnone => absurd hnone htip, fun _ => htip⟩

theorem discardBatch_of_pending_nil (hpending : t.pendingKMCleanup = []) :
    t.discardBatch.db.db = t.db.db := by
  simp [Tracker.discardBatch, hpending, LevelUpStore.discardTransaction]

/-- Dropping a batch stores the queue and leaves the tip pointer. -/
theorem discardBatch_db (hpending : t.pendingKMCleanup ≠ []) :
    t.discardBatch.db.db =
      t.db.db.insert .pendingCleanup (.hashList t.pendingKMCleanup) := by
  simp [Tracker.discardBatch, hpending, LevelUpStore.discardTransaction]

theorem discardBatch_tip (t : Tracker) :
    t.discardBatch.db.db[Key.lastBlockHash]? = t.db.db[Key.lastBlockHash]? := by
  by_cases hpending : t.pendingKMCleanup = []
  · rw [discardBatch_of_pending_nil hpending]
  · rw [discardBatch_db hpending, Std.ExtTreeMap.getElem?_insert, if_neg]
    exact fun heq => nomatch Std.LawfulEqOrd.eq_of_compare heq

theorem TipInv.of_discard (htip : TipInv s) (hdb : s'.db = s.tracker.discardBatch.db.db)
    (hkept : s.db[Key.lastBlockHash]? = none → s.tracker.pendingKMCleanup = [])
    (hphase : ¬ (s'.phase = .flushed ∨ ∃ entry, s'.phase = .walked entry)) : TipInv s' := by
  refine ⟨fun hnone => ?_, fun hbusy => absurd hbusy hphase⟩
  rw [hdb, discardBatch_tip] at hnone
  rw [hdb, discardBatch_of_pending_nil (hkept hnone)]
  exact htip.untouched hnone

/-! ### One step -/

theorem InvAt.tipInv_stage {b : Block} (hinv : InvAt s depth) (hphase : s.phase = .idle)
    (hvalid : ValidBlock s.full b) (hrun : s.tracker.indexNextBlock b = some (.ok t))
    (htip : TipInv s) : TipInv (s.afterStage b t) := by
  obtain ⟨t₁, hrun', hstaged⟩ := hinv.indexNextBlock hphase hvalid
  rw [hrun'] at hrun
  obtain rfl := Except.ok.inj (Option.some.inj hrun)
  refine htip.of_db hstaged.db fun hbusy => ?_
  simp [Sys.afterStage, hphase] at hbusy

theorem InvAt.tipInv_cleanup (hinv : InvAt s depth) (hphase : s.phase = .flushed)
    (hrun : s.tracker.cleanupAgedBlocks = .ok t) (htip : TipInv s) :
    TipInv { s with tracker := t.finishFlushedBlock, phase := .idle } := by
  obtain ⟨t', hrun', -, -, hframe, -⟩ := hinv.cleanup hphase
  rw [hrun'] at hrun
  obtain rfl := Except.ok.inj hrun
  apply TipInv.of_tip
  have hkept : t'.db.db[Key.lastBlockHash]? = s.db[Key.lastBlockHash]? :=
    hframe.db _ rfl (by simp)
  intro hnone
  exact htip.busy (Or.inl hphase) (hkept.symm.trans hnone)

theorem InvAt.tipInv_finishMismatch (hinv : InvAt s depth) (hphase : s.phase = .walked .mismatch)
    (hrun : s.tracker.reloadCursor.cleanupAgedBlocks = .ok t) (htip : TipInv s) :
    TipInv { s with tracker := { t with pendingKMCleanup := [] }, phase := .idle } := by
  have hsettled := hinv.walked hphase
  have hlast : s.tracker.reloadCursor.lastBlocks = (windowOf s.chain depth).reverse := hsettled.last
  have hdurable : Durable s.provenance s.chain depth s.tracker.reloadCursor.db.db := hinv.durable
  obtain ⟨σ', hclean, -, -, -, hframe, -⟩ :=
    hdurable.cleanupAgedBlocks le_rfl hlast fun hash hmem => Or.inl (by
      rw [hlast]
      exact List.mem_reverse.mpr hmem)
  rw [hclean] at hrun
  obtain rfl := Except.ok.inj hrun
  apply TipInv.of_tip
  have hkept : σ'.db[Key.lastBlockHash]? = s.db[Key.lastBlockHash]? := hframe _ rfl (by simp)
  intro hnone
  exact htip.busy (Or.inr ⟨_, hphase⟩) (hkept.symm.trans hnone)

/-- A round of the walk reads the tip pointer first. -/
theorem verifyReorgRound_of_no_tip {w : Walk} {answers : NodeAnswers}
    (hnone : t.db.db[Key.lastBlockHash]? = none) :
    t.verifyReorgRound w answers =
      .threw t w (.other "Cannot read properties of null (reading 'length')") := by
  have hhash : t.db.getLastBlockHash = none := by simp [LevelUpStore.getLastBlockHash, hnone]
  simp [verifyReorgRound, hhash]

theorem InvAt.tipInv_walkNext {entry : WalkEntry} {w w' : Walk} {answers : NodeAnswers}
    (hinv : InvAt s depth) (hphase : s.phase = .walking entry w)
    (hround : s.tracker.verifyReorgRound w answers = .next t w') (htip : TipInv s) :
    TipInv (s.afterRound entry w w' t) := by
  have hcases := hinv.round hphase answers
  rw [hround] at hcases
  cases hcases with
  | again hsame _ _ hdeleted _ =>
      rw [Sys.afterRound_of_same hdeleted]
      exact htip.of_db hsame.db fun hbusy => by simp at hbusy
  | rolledBack hchain _ _ _ _ hrolled hdeleted _ =>
      rw [Sys.afterRound_of_deleted hchain hdeleted]
      apply TipInv.of_tip
      rw [hrolled.hash]
      exact Option.some_ne_none _

theorem InvAt.tipInv_walkReturned {entry : WalkEntry} {w w' : Walk} {answers : NodeAnswers}
    (hinv : InvAt s depth) (hphase : s.phase = .walking entry w)
    (hround : s.tracker.verifyReorgRound w answers = .returned t w') (htip : TipInv s) :
    TipInv { s with tracker := t, phase := .walked entry } := by
  have hpresent : s.db[Key.lastBlockHash]? ≠ none := by
    intro hnone
    rw [verifyReorgRound_of_no_tip hnone] at hround
    cases hround
  have hcases := hinv.round hphase answers
  rw [hround] at hcases
  cases hcases with
  | agreed =>
      refine htip.of_db ?_ fun _ => hpresent
      unfold Tracker.recordReorg
      split <;> rfl

theorem InvAt.tipInv_walkThrew {entry : WalkEntry} {w w' : Walk} {answers : NodeAnswers}
    {error : ReorgError} {phase : Phase} (hinv : InvAt s depth)
    (hphase : s.phase = .walking entry w)
    (hround : s.tracker.verifyReorgRound w answers = .threw t w' error) (hdb : t'.db = t.db)
    (hbusy : phase = .flushed ∨ (∃ entry, phase = .walked entry) →
      s.db[Key.lastBlockHash]? ≠ none)
    (htip : TipInv s) : TipInv { s with tracker := t', phase := phase } := by
  have hcases := hinv.round hphase answers
  rw [hround] at hcases
  cases hcases with
  | threw hsame =>
      refine htip.of_db ?_ hbusy
      rw [Sys.db, hdb]
      exact hsame.db

/-- **A step keeps the tip invariant**, unless it drops a batch with a queue before the first
flush. -/
theorem InvAt.tipInv_step (hinv : InvAt s depth) (hstep : Step s s')
    (hkept : ¬ (s.db[Key.lastBlockHash]? = none ∧ DropsQueue s s')) (htip : TipInv s) :
    TipInv s' := by
  obtain ⟨depth', hinv', -⟩ := hinv.step hstep
  cases hstep with
  | stage hphase hvalid hrun => exact hinv.tipInv_stage hphase hvalid hrun htip
  | stageFailed hphase hvalid hrun => exact htip.of_db rfl fun hbusy => by simp at hbusy
  | flush hphase hstaged hhash hrun =>
      exact .of_tip (hinv'.durable.tip_ne_none (List.append_ne_nil_of_left_ne_nil hstaged _))
  | cleanup hphase hrun => exact hinv.tipInv_cleanup hphase hrun htip
  | mismatch hphase =>
      refine htip.of_discard rfl (fun hnone => ?_) (by simp)
      by_contra hpending
      exact hkept ⟨hnone, hphase, hpending, Or.inl ⟨_, rfl⟩⟩
  | tipBelow hphase =>
      by_cases hquantity : s.tracker.blocksQuantity = 0
      · refine htip.of_db ?_ fun hbusy => by simp at hbusy
        simp [Sys.db, discardInflightBatchForReorg, hquantity]
      · refine htip.of_discard ?_ (fun hnone => ?_) (by simp)
        · simp [Sys.db, discardInflightBatchForReorg, hquantity]
        · by_contra hpending
          exact hkept ⟨hnone, hphase, hpending, Or.inr ⟨rfl, hquantity⟩⟩
  | repair hphase hlast hrun =>
      apply TipInv.of_tip
      refine hinv'.durable.tip_ne_none fun hnil => ?_
      have hdurable := hinv.durable
      rw [show s.chain = [] from hnil] at hdurable
      rw [hdurable.getLastBlock_nil] at hlast
      cases hlast
  | rollBackToNodeTip hphase hlast hbelow hreload =>
      subst hreload
      exact htip.of_db rfl fun hbusy => by simp at hbusy
  | walkNext hphase hround => exact hinv.tipInv_walkNext hphase hround htip
  | walkReturned hphase hround => exact hinv.tipInv_walkReturned hphase hround htip
  | walkRefused hphase hround =>
      refine hinv.tipInv_walkThrew hphase hround ?_ (fun _ hnone => ?_) htip
      · unfold countRefusedWalk
        split <;> rfl
      · rw [verifyReorgRound_of_no_tip hnone] at hround
        cases hround
  | walkFailed hphase hround hfatal =>
      exact hinv.tipInv_walkThrew hphase hround rfl (fun hbusy => by simp at hbusy) htip
  | finishMismatch hphase hrun => exact hinv.tipInv_finishMismatch hphase hrun htip
  | finishTipBelow hphase => exact htip.of_db rfl fun hbusy => by simp at hbusy
  | restart hrun =>
      rw [hinv.durable.start] at hrun
      obtain rfl := Except.ok.inj hrun
      exact htip.of_db rfl fun hbusy => by simp at hbusy

end Tip

/-! ### Loads -/

namespace SeedLoad

variable (load : SeedLoad)

/-- A load that runs to its end is the pipeline's. -/
theorem bulkSync_eq {db : Db} (hfresh : holdsNothingButCurrentStamp db = true) :
    bulkSync load.opts load.dumps db =
      .ok ((loadBatches load.opts.batchSize load.keys).foldl putBatch db) := by
  unfold bulkSync
  rw [load.merged]
  simp only [Except.mapError, bind, Except.bind, loadKeys, if_pos hfresh]

/-- The prefix files hold no housekeeping record. -/
theorem not_isMeta {row : Row} (hmem : row ∈ (prefixFiles load.keys).flatten) :
    row.1.isMeta = false := by
  obtain ⟨b, rest, hchain⟩ := List.exists_cons_of_ne_nil load.nonempty
  have hmerged := load.merged
  rw [phaseMerge_streams load.opts (hchain ▸ load.cut)] at hmerged
  split at hmerged
  · cases hmerged
  · split at hmerged
    · cases hmerged
    · rw [← Except.ok.inj hmerged, tipKeys, mem_chainKeys] at hmem
      obtain ⟨k, value⟩ := row
      cases k <;> first | rfl | exact (List.not_mem_nil hmem).elim

/-- The batches before the last one are cut from the prefix files. -/
theorem written_of_rest {written rest : List (List Row)} {rows : List Row}
    (hbatches : written ++ rows :: rest = loadBatches load.opts.batchSize load.keys) :
    (∀ row ∈ written.flatten, row.1.isMeta = false) ∧ ∀ batch ∈ written, batch ≠ [] := by
  have hinit : written <+: (prefixFiles load.keys).flatMap fun rows =>
      Chunks.chunks (if load.opts.batchSize = 0 then 10000 else load.opts.batchSize) rows := by
    have hall : written <+: loadBatches load.opts.batchSize load.keys := ⟨_, hbatches⟩
    rw [loadBatches, List.prefix_concat_iff] at hall
    refine hall.resolve_left fun heq => ?_
    have hlength := congrArg List.length hbatches
    rw [heq, ← loadBatches, List.length_append, List.length_cons] at hlength
    omega
  have hmem : ∀ batch ∈ written, ∃ file ∈ prefixFiles load.keys, batch ∈ Chunks.chunks
      (if load.opts.batchSize = 0 then 10000 else load.opts.batchSize) file := fun batch hbatch =>
    List.mem_flatMap.mp (hinit.subset hbatch)
  constructor
  · intro row hrow
    obtain ⟨batch, hbatch, hin⟩ := List.mem_flatten.mp hrow
    obtain ⟨file, hfile, hchunk⟩ := hmem batch hbatch
    apply load.not_isMeta
    refine List.mem_flatten.mpr ⟨file, hfile, ?_⟩
    have hflat := List.mem_flatten.mpr ⟨batch, hchunk, hin⟩
    rwa [Chunks.flatten_chunks] at hflat
  · intro batch hbatch
    obtain ⟨file, -, hchunk⟩ := hmem batch hbatch
    exact Chunks.ne_nil_of_mem_chunks batch hchunk

/-- A load has a batch before its last one. -/
theorem exists_loadBatches_split :
    ∃ first second rest, loadBatches load.opts.batchSize load.keys = first :: second :: rest := by
  obtain ⟨b, below, hchain⟩ := List.exists_cons_of_ne_nil load.nonempty
  obtain ⟨⟨k, value⟩, hrow⟩ : ∃ row : Row, row ∈ (prefixFiles load.keys).flatten := by
    have hmerged := load.merged
    rw [phaseMerge_streams load.opts (hchain ▸ load.cut)] at hmerged
    split at hmerged
    · cases hmerged
    · split at hmerged
      · cases hmerged
      · refine ⟨blockRow (blockMeta b below.length), ?_⟩
        rw [← Except.ok.inj hmerged, mem_prefixFiles]
        left
        simp [tipKeys, chainKeys, chainMeta, inHeightOrder]
  obtain ⟨file, hfile, hin⟩ := List.mem_flatten.mp hrow
  rw [← Chunks.flatten_chunks
    (if load.opts.batchSize = 0 then 10000 else load.opts.batchSize) file] at hin
  obtain ⟨batch, hbatch, -⟩ := List.mem_flatten.mp hin
  obtain ⟨first, more, hinit⟩ := List.exists_cons_of_ne_nil
    (List.ne_nil_of_mem (List.mem_flatMap.mpr ⟨file, hfile, hbatch⟩))
  rw [loadBatches, hinit]
  cases more with
  | nil => exact ⟨first, _, [], rfl⟩
  | cons second rest => exact ⟨first, second, _, rfl⟩

end SeedLoad

/-- A chain with no more outputs than there are row ids is loaded. -/
theorem exists_seedLoad {chain : Chain} {dumps : List Dump} (opts : BulkOptions)
    (hvalid : ValidChain chain) (hne : chain ≠ []) (hdumps : CutInto chain dumps)
    (hfew : ¬ 0xFFFFFFFF + 1 < (chainOutputs chain).length) :
    ∃ load : SeedLoad, load.chain = chain ∧ load.opts = opts := by
  obtain ⟨b, rest, rfl⟩ := List.exists_cons_of_ne_nil hne
  obtain ⟨horphans, -⟩ := hvalid.join opts.ramBudgetBytes
  have hmerged := phaseMerge_streams opts hdumps
  rw [if_neg fun hpos => absurd horphans (Nat.pos_iff_ne_zero.mp hpos), if_neg hfew] at hmerged
  exact ⟨⟨_, dumps, opts, _, hvalid, hne, hdumps, hmerged⟩, rfl, rfl⟩

section PartialLoad

variable {load : SeedLoad} {db : Db} {written rest : List (List Row)} {rows : List Row}

/-- Short of its last batch a load writes no housekeeping record. -/
theorem getElem?_partialLoad
    (hbatches : written ++ rows :: rest = loadBatches load.opts.batchSize load.keys) {k : Key}
    (hmeta : k.isMeta = true) : (written.foldl putBatch db)[k]? = db[k]? := by
  rw [foldl_putBatch, getElem?_stageAll_of_notMem]
  intro value hmem
  have hplain := (load.written_of_rest hbatches).1 _ hmem
  rw [hmeta] at hplain
  cases hplain

/-- Each batch leaves a record behind. -/
theorem exists_partialLoad (db : Db)
    (hbatches : written ++ rows :: rest = loadBatches load.opts.batchSize load.keys)
    (hwritten : written ≠ []) :
    ∃ k : Key, k.isMeta = false ∧ (written.foldl putBatch db)[k]? ≠ none := by
  obtain ⟨hplain, hsome⟩ := load.written_of_rest hbatches
  obtain ⟨batch, more, rfl⟩ := List.exists_cons_of_ne_nil hwritten
  obtain ⟨⟨k, value⟩, others, rfl⟩ :=
    List.exists_cons_of_ne_nil (hsome batch List.mem_cons_self)
  have hvalues : valuesAt k (((k, value) :: others) :: more).flatten ≠ [] := by
    rw [List.flatten_cons, List.cons_append, valuesAt_cons, if_pos rfl]
    exact List.cons_ne_nil _ _
  refine ⟨k, hplain (k, value) (by simp), ?_⟩
  rw [foldl_putBatch, getElem?_stageAll]
  cases hlast : (valuesAt k (((k, value) :: others) :: more).flatten).getLast? with
  | none => exact absurd (List.getLast?_eq_none_iff.mp hlast) hvalues
  | some last => exact Option.some_ne_none _

end PartialLoad

/-- The gate refuses records without a stamp. -/
theorem ensureLayoutVersion_unstamped {db : Db} (hstamp : db[Key.layoutVersion]? = none) {k : Key}
    (hsome : db[k]? ≠ none) (stamp : Bool) :
    ∃ refusal, ensureLayoutVersion db stamp = .error refusal := by
  have hheld : db.isEmpty = false := by
    rw [Bool.eq_false_iff]
    intro hempty
    apply hsome
    rw [Std.ExtTreeMap.isEmpty_iff] at hempty
    simp [hempty]
  have hread : getLayoutVersion db = .version legacyLayoutVersion := by
    simp [getLayoutVersion, hstamp, hheld]
  unfold ensureLayoutVersion
  rw [hread]
  simp only [legacyLayoutVersion, storeLayoutVersion, Nat.reduceEqDiff, if_false, Nat.reduceLeDiff]
  split <;> exact ⟨_, rfl⟩

end UtxoTracker

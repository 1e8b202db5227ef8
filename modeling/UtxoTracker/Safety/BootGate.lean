import UtxoTracker.Proof.BootHistory
import UtxoTracker.Safety.UtxoSet
/-!
# What the boot gate admits

Completeness is read off a stamp that a tracker writes on an empty path and a load writes last. Over
a whole life of a path the gate is right, but for two steps: a load cut off over a stamped path, and
a queue of aged-out blocks that the loop stores before its first flush.
-/

namespace UtxoTracker

open KeyedStore LevelUpStore Tracker Bulk

/-! ### One store -/

theorem getElem?_setLayoutVersion_empty (k : Key) :
    (setLayoutVersion ∅)[k]? = if k = .layoutVersion then some (.text "2") else none := by
  rw [setLayoutVersion, Std.ExtTreeMap.getElem?_insert]
  by_cases hk : k = .layoutVersion
  · simp [hk]
  · have hne : compare Key.layoutVersion k ≠ .eq :=
      fun heq => hk (Std.LawfulEqOrd.eq_of_compare heq).symm
    simp [hne, hk]

theorem onlyStamp_empty : OnlyStamp ∅ := fun k hsome => absurd (by simp) hsome

theorem onlyStamp_stamped : OnlyStamp (setLayoutVersion ∅) := by
  intro k hsome
  rw [getElem?_setLayoutVersion_empty] at hsome
  by_contra hk
  exact hsome (if_neg hk)

/-- A store of which nothing was cut off is right whatever the gate says. -/
theorem gateSound_of {db : Db} (hsound : OnlyStamp db ∨ CompleteStore db) : GateSound db false :=
  ⟨fun _ _ _ _ => hsound, fun hinterrupted => nomatch hinterrupted⟩

/-- An open without stamping writes nothing. -/
theorem ensureLayoutVersion_unstamping {db db' : Db} {answer : LayoutAnswer}
    (hopen : ensureLayoutVersion db false = .ok (answer, db')) : db' = db := by
  unfold ensureLayoutVersion at hopen
  split at hopen
  · simp only [Bool.false_eq_true, if_false, Except.ok.injEq, Prod.mk.injEq] at hopen
    exact hopen.2.symm
  · cases hopen
  · split_ifs at hopen
    simp only [Except.ok.injEq, Prod.mk.injEq] at hopen
    exact hopen.2.symm

/-- A start on a path that holds at most the stamp is a start on an empty one. -/
theorem start_blank {db : Db} (hblank : db = ∅ ∨ db = setLayoutVersion ∅) (undoBlocks : Nat) :
    Tracker.start db undoBlocks = Tracker.start ∅ undoBlocks := by
  rcases hblank with rfl | rfl
  · rfl
  · rw [durable_stamped.start, start_empty]

theorem CompleteStore.of_inv {s : Sys} (hreach : Transition.Reachable FromStore Step s)
    (htip : TipInv s) : OnlyStamp s.db ∨ CompleteStore s.db := by
  by_cases hnone : s.db[Key.lastBlockHash]? = none
  · left
    rw [htip.untouched hnone]
    exact onlyStamp_stamped
  · obtain ⟨depth, hinv⟩ := Inv.reachable (fun _ => FromStore.inv) hreach
    exact Or.inr ⟨s.chain, hinv.durable.tipCommitted hnone, Or.inr ⟨s, hreach, rfl, rfl⟩⟩

/-! ### The invariant -/

/-- What a store at rest may be. -/
inductive StoredInv : Stored → Prop where
  | blank {st : Stored} (hchain : st.chain = []) (hprovenance : st.provenance = .live)
      (hwrote : st.wrote = fun _ => none) (hwhole : st.interrupted = false)
      (hdb : st.db = ∅ ∨ st.db = setLayoutVersion ∅) : StoredInv st
  | indexed {s : Sys} (hreach : Transition.Reachable FromStore Step s) (htip : TipInv s) :
      StoredInv (.ofSys s false)
  | seeded {load : SeedLoad} {before : Db} (hfresh : holdsNothingButCurrentStamp before = true) :
      StoredInv (.ofLoad load
        ((loadBatches load.opts.batchSize load.keys).foldl putBatch before) false)
  | cutOff {st : Stored} {k : Key} (hcut : st.interrupted = true)
      (hstamp : st.db[Key.layoutVersion]? = none) (hsome : st.db[k]? ≠ none) : StoredInv st

def PathInv : StorePath → Prop
  | .closed st => StoredInv st
  | .running s interrupted =>
      interrupted = false ∧ Transition.Reachable FromStore Step s ∧ TipInv s
  | .loading load st written rest =>
      StoredInv st ∧ st.interrupted = false ∧ holdsNothingButCurrentStamp st.db = true ∧
        written ++ rest = loadBatches load.opts.batchSize load.keys

theorem SeedLoad.fromSeed (load : SeedLoad) {before : Db} {undoBlocks : Nat} {t : Tracker}
    (hfresh : holdsNothingButCurrentStamp before = true)
    (hstart : Tracker.start
      ((loadBatches load.opts.batchSize load.keys).foldl putBatch before) undoBlocks = .ok t) :
    FromSeed ((Stored.ofLoad load
      ((loadBatches load.opts.batchSize load.keys).foldl putBatch before) false).enter t) :=
  ⟨load.dumps, load.opts, before, _, undoBlocks, load.valid, load.nonempty, load.cut,
    load.bulkSync_eq hfresh, hstart, rfl, rfl, rfl, rfl⟩

theorem SeedLoad.durable (load : SeedLoad) {before : Db}
    (hfresh : holdsNothingButCurrentStamp before = true) :
    Durable (.bulk load.chain.length load.opts.txIndex) load.chain
      (min load.opts.undoBlocks load.chain.length)
      ((loadBatches load.opts.batchSize load.keys).foldl putBatch before) := by
  have hbulk := bulkSync_chain load.opts load.valid load.nonempty load.cut hfresh
  rw [load.bulkSync_eq hfresh] at hbulk
  split at hbulk
  · cases hbulk
  · obtain ⟨db, hrun, hstore⟩ := hbulk
    rw [Except.ok.inj hrun]
    exact hstore.durable

/-- **A store at rest that meets the invariant is admitted rightly.** -/
theorem StoredInv.gateSound {st : Stored} (hinv : StoredInv st) :
    GateSound st.db st.interrupted := by
  cases hinv with
  | blank hchain hprovenance hwrote hwhole hdb =>
      rw [hwhole]
      refine gateSound_of (Or.inl ?_)
      rcases hdb with hdb | hdb <;> rw [hdb]
      · exact onlyStamp_empty
      · exact onlyStamp_stamped
  | indexed hreach htip => exact gateSound_of (CompleteStore.of_inv hreach htip)
  | @seeded load before hfresh =>
      have hdurable := load.durable hfresh
      refine gateSound_of (Or.inr ⟨load.chain, ?_, Or.inl ?_⟩)
      · exact hdurable.tipCommitted (hdurable.tip_ne_none load.nonempty)
      · exact ⟨load.dumps, load.opts, before, load.valid, load.nonempty, load.cut,
          load.bulkSync_eq hfresh⟩
  | cutOff hcut hstamp hsome =>
      refine ⟨fun stamp answer db' hopen => ?_, fun _ => ensureLayoutVersion_unstamped hstamp hsome⟩
      obtain ⟨refusal, hrefused⟩ := ensureLayoutVersion_unstamped hstamp hsome stamp
      rw [hrefused] at hopen
      cases hopen

theorem PathInv.gateSound {path : StorePath} (hinv : PathInv path) : path.GateSound := by
  cases path with
  | closed st => exact StoredInv.gateSound hinv
  | running s interrupted =>
      obtain ⟨rfl, hreach, htip⟩ := hinv
      exact gateSound_of (CompleteStore.of_inv hreach htip)
  | loading load st written rest => trivial

/-! ### One step -/

/-- **An accepted start** enters a run from an empty path or a completed load. -/
theorem StoredInv.start {st : Stored} {undoBlocks : Nat} {t : Tracker} (hinv : StoredInv st)
    (hstart : Tracker.start st.db undoBlocks = .ok t) :
    PathInv (.running (st.enter t) st.interrupted) := by
  cases hinv with
  | blank hchain hprovenance hwrote hwhole hdb =>
      rw [start_blank hdb] at hstart
      refine ⟨hwhole, .start (Or.inl ⟨undoBlocks, hstart, rfl, hchain, rfl, hprovenance, hwrote⟩),
        fun _ => ?_, fun hbusy => ?_⟩
      · rw [start_empty] at hstart
        obtain rfl := Except.ok.inj hstart
        rfl
      · simp [Stored.enter] at hbusy
  | @indexed s hreach htip =>
      obtain ⟨depth, hinv⟩ := Inv.reachable (fun _ => FromStore.inv) hreach
      have hstep := Step.restart hstart
      refine ⟨rfl, hreach.next hstep, hinv.tipInv_step hstep ?_ htip⟩
      rintro ⟨-, -, -, ⟨w, hphase⟩ | ⟨hphase, -⟩⟩ <;> cases hphase
  | @seeded load before hfresh =>
      have hdurable := load.durable hfresh
      refine ⟨rfl, .start (Or.inr (load.fromSeed hfresh hstart)), .of_tip ?_⟩
      have hloaded := Except.ok.inj (hstart.symm.trans (hdurable.start undoBlocks))
      subst hloaded
      exact hdurable.tip_ne_none load.nonempty
  | cutOff hcut hstamp hsome =>
      obtain ⟨refusal, hrefused⟩ := ensureLayoutVersion_unstamped hstamp hsome true
      unfold Tracker.start at hstart
      rw [hrefused] at hstart
      cases hstart

theorem StoredInv.not_interrupted {st : Stored} (hinv : StoredInv st)
    (hfresh : holdsNothingButCurrentStamp st.db = true) : st.interrupted = false := by
  cases hinv with
  | blank _ _ _ hwhole _ => exact hwhole
  | indexed => rfl
  | seeded => rfl
  | @cutOff _ k hcut hstamp hsome =>
      obtain ⟨value, hvalue⟩ := Option.ne_none_iff_exists'.mp hsome
      obtain ⟨rfl, -⟩ := eq_stamp_of_fresh hfresh hvalue
      exact absurd hstamp hsome

/-- **The step lemma.** -/
theorem PathInv.step {path path' : StorePath} (hinv : PathInv path)
    (hstep : path.Step path') (hkept : ¬ path.Breaks path') : PathInv path' := by
  cases hstep with
  | probe hopen =>
      rw [ensureLayoutVersion_unstamping hopen]
      exact hinv
  | refused => exact hinv
  | start hstart => exact StoredInv.start hinv hstart
  | loop hstep =>
      obtain ⟨rfl, hreach, htip⟩ := hinv
      obtain ⟨depth, hinvAt⟩ := Inv.reachable (fun _ => FromStore.inv) hreach
      refine ⟨rfl, hreach.next hstep, hinvAt.tipInv_step hstep ?_ htip⟩
      rintro ⟨hnone, hdrops⟩
      exact hkept (.storedQueue hnone hdrops)
  | stop =>
      obtain ⟨rfl, hreach, htip⟩ := hinv
      exact StoredInv.indexed hreach htip
  | load load hfresh => exact ⟨hinv, StoredInv.not_interrupted hinv hfresh, hfresh, rfl⟩
  | loadRefused => exact hinv
  | batch =>
      obtain ⟨hstored, hwhole, hfresh, hbatches⟩ := hinv
      refine ⟨hstored, hwhole, hfresh, ?_⟩
      rw [List.append_assoc, List.singleton_append, hbatches]
  | @killed load st written rest rows =>
      obtain ⟨hstored, hwhole, hfresh, hbatches⟩ := hinv
      by_cases hwritten : written = []
      · subst hwritten
        rw [List.foldl_nil, List.isEmpty_nil, Bool.not_true, Bool.or_false]
        exact hstored
      · have hstamp : st.db[Key.layoutVersion]? = none := by
          by_contra hstamped
          exact hkept (.partialLoad hstamped hwritten)
        obtain ⟨k, -, hsome⟩ := exists_partialLoad st.db hbatches hwritten
        refine StoredInv.cutOff (by simp [hwritten]) ?_ hsome
        exact (getElem?_partialLoad hbatches rfl).trans hstamp
  | @loaded load st written =>
      obtain ⟨hstored, hwhole, hfresh, hbatches⟩ := hinv
      rw [List.append_nil] at hbatches
      rw [hbatches, hwhole]
      exact StoredInv.seeded hfresh

/-! ### What breaks it shows -/

/-- Dropping a batch for a reorg stores the queue. -/
theorem DropsQueue.db_eq {s s' : Sys} (hstep : Step s s') (hdrops : DropsQueue s s') :
    s'.db = s.db.insert .pendingCleanup (.hashList s.tracker.pendingKMCleanup) := by
  obtain ⟨hidle, hpending, hphase⟩ := hdrops
  cases hstep with
  | mismatch => exact discardBatch_db hpending
  | tipBelow =>
      obtain ⟨w, hphase⟩ | ⟨-, hquantity⟩ := hphase
      · cases hphase
      · simp only [Sys.db, discardInflightBatchForReorg, if_neg hquantity]
        exact discardBatch_db hpending
  | stage | stageFailed | flush | restart | repair =>
      obtain ⟨w, hphase⟩ | ⟨hphase, -⟩ := hphase <;> simp [Sys.afterStage, hidle] at hphase
  | cleanup hflushed | rollBackToNodeTip hflushed | walkNext hflushed | walkReturned hflushed
  | walkRefused hflushed | walkFailed hflushed | finishMismatch hflushed
  | finishTipBelow hflushed =>
      rw [hidle] at hflushed
      cases hflushed

/-- A stamped store with another record and no tip is admitted wrongly. -/
theorem not_gateSound_of_stamp {db : Db} {interrupted : Bool} {k : Key}
    (hstamp : db[Key.layoutVersion]? = some (.text "2")) (hk : k ≠ .layoutVersion)
    (hsome : db[k]? ≠ none) (htip : db[Key.lastBlockHash]? = none) :
    ¬ GateSound db interrupted := by
  rintro ⟨hadmits, -⟩
  rcases hadmits true .current db (ensureLayoutVersion_of_stamp hstamp true) with honly | hcomplete
  · exact hk (honly k hsome)
  · obtain ⟨chain, ⟨-, hash, hhash, -⟩, -⟩ := hcomplete
    rw [htip] at hhash
    cases hhash

/-- What a load over a stamped path leaves after some of its batches. -/
theorem PathInv.cutLoad {load : SeedLoad} {st : Stored} {written rest : List (List Row)}
    {rows : List Row} (hinv : PathInv (.loading load st written (rows :: rest)))
    (hstamped : st.db[Key.layoutVersion]? ≠ none) (hwritten : written ≠ []) :
    (written.foldl putBatch st.db)[Key.layoutVersion]? = some (.text "2") ∧
      (written.foldl putBatch st.db)[Key.lastBlockHash]? = none ∧
      ∃ k : Key, k ≠ .layoutVersion ∧ (written.foldl putBatch st.db)[k]? ≠ none := by
  obtain ⟨hstored, hwhole, hfresh, hbatches⟩ := hinv
  obtain ⟨value, hvalue⟩ := Option.ne_none_iff_exists'.mp hstamped
  obtain ⟨-, rfl⟩ := eq_stamp_of_fresh hfresh hvalue
  obtain ⟨k, hplain, hsome⟩ := exists_partialLoad st.db hbatches hwritten
  refine ⟨(getElem?_partialLoad hbatches rfl).trans hvalue,
    (getElem?_partialLoad hbatches rfl).trans ?_, k, fun hk => ?_, hsome⟩
  · rw [Option.eq_none_iff_forall_ne_some]
    exact fun hash hhash => nomatch (eq_stamp_of_fresh hfresh hhash).1
  · rw [hk] at hplain
    cases hplain

/-- **The break lemma.** -/
theorem PathInv.not_gateSound {path path' : StorePath} (hinv : PathInv path)
    (hstep : path.Step path') (hbreaks : path.Breaks path') : ¬ path'.GateSound := by
  cases hbreaks with
  | @partialLoad load st _ _ _ _ hstamped hwritten =>
      cases hstep with
      | killed =>
          obtain ⟨hstamp, htip, k, hk, hsome⟩ := hinv.cutLoad hstamped hwritten
          exact not_gateSound_of_stamp hstamp hk hsome htip
  | storedQueue htip hdrops =>
      cases hstep with
      | @loop s s' interrupted hstep =>
          obtain ⟨-, hreach, -⟩ := hinv
          obtain ⟨depth, hinvAt⟩ := Inv.reachable (fun _ => FromStore.inv) (hreach.next hstep)
          have hdb := hdrops.db_eq hstep
          refine not_gateSound_of_stamp hinvAt.durable.stamp
            (show Key.pendingCleanup ≠ .layoutVersion by simp) ?_ ?_
          · rw [hdb, Std.ExtTreeMap.getElem?_insert_self]
            exact Option.some_ne_none _
          · rw [hdb, Std.ExtTreeMap.getElem?_insert, if_neg, htip]
            exact fun heq => nomatch Std.LawfulEqOrd.eq_of_compare heq

/-! ### Whole lives -/

/-- **The boot gate over a whole life of a path.** Whatever is opened, stamped, loaded, indexed,
stopped and killed in whatever order, every later open accepts only a path that holds nothing or a
complete store, and refuses an interrupted load: exactly in the lives in which no load over a
stamped path is cut off between two batches and the loop stores no queue before its first flush. -/
theorem boot_gate_admits_complete {life : List StorePath}
    (hlife : (.closed .fresh :: life).IsChain StorePath.Step) :
    (∀ path ∈ .closed .fresh :: life, path.GateSound) ↔
      (.closed .fresh :: life).IsChain fun path path' => ¬ path.Breaks path' := by
  have hfresh : PathInv (.closed .fresh) :=
    StoredInv.blank rfl rfl rfl rfl (Or.inl rfl)
  exact Transition.forall_good_iff_unbroken (fun _ hinv => hinv.gateSound)
    (fun _ _ hinv hstep hkept => hinv.step hstep hkept)
    (fun _ _ hinv hstep hbreaks => hinv.not_gateSound hstep hbreaks) hfresh hlife

/-- A path that a tracker stamped and left. -/
def Stored.stamped : Stored := .ofSys (Sys.empty 1) false

theorem stamped_ne_none : Stored.stamped.db[Key.layoutVersion]? ≠ none := by
  rw [show Stored.stamped.db[Key.layoutVersion]? = some (.text "2") from durable_stamped.stamp]
  exact Option.some_ne_none _

/-- A load of two blocks that starts over that path has a batch to write and another one after it. -/
theorem exists_stampedLoad : ∃ load first second rest,
    StorePath.Step (.closed .stamped) (.loading load .stamped [] (first :: second :: rest)) := by
  obtain ⟨load, -, -⟩ := exists_seedLoad ⟨⟨1, 1, true⟩, ⟨1, 0⟩, 3⟩ validChain_spending (by simp)
    (show CutInto _ [⟨0, [firstBlock]⟩, ⟨1, [spendingBlock]⟩] from
      ⟨⟨rfl, by simp, rfl, by simp, trivial⟩, rfl⟩) (by decide)
  obtain ⟨first, second, rest, hbatches⟩ := load.exists_loadBatches_split
  have hstamped : holdsNothingButCurrentStamp (setLayoutVersion ∅) = true := by
    have hlist : (setLayoutVersion ∅).toList = [(.layoutVersion, .text "2")] := by decide
    rw [holdsNothingButCurrentStamp, hlist]
    rfl
  exact ⟨load, first, second, rest, hbatches ▸ .load load hstamped⟩

/-- A tracker stamps an empty path and is stopped, and a load of two blocks is killed after its first
batch: the gate takes what is left for a current store. -/
theorem boot_gate_admits_complete_cut_load : ∃ life : List StorePath,
    (.closed .fresh :: life).IsChain StorePath.Step ∧
      ¬ ∀ path ∈ .closed .fresh :: life, path.GateSound := by
  obtain ⟨load, first, second, rest, hload⟩ := exists_stampedLoad
  have hlife : (.closed .fresh :: .running (Sys.empty 1) false :: .closed .stamped ::
      .loading load .stamped [] (first :: second :: rest) ::
      .loading load .stamped [first] (second :: rest) ::
      [.closed { Stored.stamped with
        db := [first].foldl putBatch Stored.stamped.db
        interrupted := true }]).IsChain StorePath.Step :=
    .cons_cons (.start (start_empty 1)) (.cons_cons .stop (.cons_cons hload
      (.cons_cons .batch (.cons_cons .killed (List.isChain_singleton _)))))
  refine ⟨_, hlife, fun hsound => ?_⟩
  have hunbroken := (boot_gate_admits_complete hlife).mp hsound
  have hlast := (List.isChain_cons_cons.mp hunbroken.tail.tail.tail.tail).1
  exact hlast (.partialLoad stamped_ne_none (List.cons_ne_nil _ _))

/-! ### Paths that whole lives reach -/

/-- A step that does not break the gate. -/
def StorePath.Unbroken (path path' : StorePath) : Prop := path.Step path' ∧ ¬ path.Breaks path'

theorem PathInv.reachable {path : StorePath}
    (hreach : Transition.Reachable (· = .closed .fresh) StorePath.Unbroken path) : PathInv path := by
  refine hreach.invariant ?_ fun _ _ hinv hstep => hinv.step hstep.1 hstep.2
  rintro _ rfl
  exact StoredInv.blank rfl rfl rfl rfl (Or.inl rfl)

/-- **The gate admits no partial store** on any path that unbroken steps reach, and each step that
breaks it there leaves a path of which the gate is wrong. -/
theorem boot_gate_admits_no_partial {path : StorePath}
    (hreach : Transition.Reachable (· = .closed .fresh) StorePath.Unbroken path) :
    path.GateSound ∧ ∀ path', path.Step path' → path.Breaks path' → ¬ path'.GateSound := by
  have hinv := PathInv.reachable hreach
  exact ⟨hinv.gateSound, fun path' hstep hbreaks => hinv.not_gateSound hstep hbreaks⟩

/-- A load over the stamped path, one batch written. -/
theorem exists_writtenLoad : ∃ load first second rest,
    Transition.Reachable (· = .closed .fresh) StorePath.Unbroken
      (.loading load .stamped [first] (second :: rest)) := by
  obtain ⟨load, first, second, rest, hload⟩ := exists_stampedLoad
  have hfresh : Transition.Reachable (· = .closed .fresh) StorePath.Unbroken (.closed .fresh) :=
    .start rfl
  have hstarted := hfresh.next ⟨.start (start_empty 1), fun hbreaks => by cases hbreaks⟩
  have hstopped := hstarted.next ⟨.stop, fun hbreaks => by cases hbreaks⟩
  have hloading := hstopped.next ⟨hload, fun hbreaks => by cases hbreaks⟩
  exact ⟨load, first, second, rest, hloading.next ⟨.batch, fun hbreaks => by cases hbreaks⟩⟩

/-- The load killed there. -/
theorem boot_gate_admits_no_partial_killed : ∃ path path' : StorePath,
    Transition.Reachable (· = .closed .fresh) StorePath.Unbroken path ∧ path.GateSound ∧
      path.Step path' ∧ ¬ path'.GateSound := by
  obtain ⟨load, first, second, rest, hreach⟩ := exists_writtenLoad
  obtain ⟨hsound, hbroken⟩ := boot_gate_admits_no_partial hreach
  exact ⟨_, _, hreach, hsound, .killed,
    hbroken _ .killed (.partialLoad stamped_ne_none (List.cons_ne_nil _ _))⟩

/-- **A partial load admitted**: a store with one of a load's batches, no tip, and the stamp of the
tracker that was stopped before it. -/
theorem cut_load_admitted : ∃ st : Stored,
    Transition.Reachable (· = .closed .fresh) StorePath.Step (.closed st) ∧
      st.interrupted = true ∧ ensureLayoutVersion st.db true = .ok (.current, st.db) ∧
      st.db[Key.lastBlockHash]? = none ∧ ∃ k : Key, k ≠ .layoutVersion ∧ st.db[k]? ≠ none := by
  obtain ⟨load, first, second, rest, hreach⟩ := exists_writtenLoad
  obtain ⟨hstamp, htip, hsome⟩ :=
    (PathInv.reachable hreach).cutLoad stamped_ne_none (List.cons_ne_nil _ _)
  refine ⟨_, (hreach.mono (fun _ => id) fun _ _ hstep => hstep.1).next .killed, rfl, ?_, htip, hsome⟩
  exact ensureLayoutVersion_of_stamp hstamp true

end UtxoTracker

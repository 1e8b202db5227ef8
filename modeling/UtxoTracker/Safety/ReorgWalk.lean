import UtxoTracker.Proof.WalkRun
import UtxoTracker.Safety.BootGate
import UtxoTracker.Safety.BulkSync
import UtxoTracker.Safety.Rollback
/-!
# A walk under any node

Whatever a node answers while `verifyReorg` walks back, and whichever of its commits fail, the walk
stays within its window, deletes the newest blocks one after another, and leaves the store of a
shorter chain. Which coins that store holds depends on how its blocks came in: a bulk-seeded block
has no recovery records for what it spent.
-/

namespace UtxoTracker

open KeyedStore LevelUpStore Provenance Tracker Bulk

/-- Height and hash of the newest `n` blocks, newest first. -/
def newestBlocks (chain : Chain) (n : Nat) : List (Int × Hash) :=
  match chain, n with
  | b :: rest, n + 1 => ((rest.length : Int), b.hash) :: newestBlocks rest n
  | _, _ => []

section Deleted

variable {p : Provenance} {chain : Chain} {depth : Nat} {t : Tracker} {w : Walk}

/-- **What a walk deletes**: the newest blocks, each the tip when it goes. -/
theorem walkFrom_blocksDeleted (hdurable : Durable p chain depth t.db.db)
    (hlast : t.lastBlocks = (windowOf chain depth).reverse)
    (hwalk : WalkInv w t.undoBlocks depth) (answers : List NodeAnswers) :
    ∃ n, (t.walkFrom w answers).walk.blocksDeleted = w.blocksDeleted ++ newestBlocks chain n ∧
      (newestBlocks chain n).length = n := by
  induction answers generalizing p chain depth t w with
  | nil => exact ⟨0, by cases chain <;> simp [walkFrom, WalkResult.walk, newestBlocks]⟩
  | cons a rest ih =>
      have hround := verifyReorgRound_cases a hdurable hlast hwalk
      have hnone : newestBlocks chain 0 = [] := by cases chain <;> rfl
      cases hresult : t.verifyReorgRound w a with
      | next t₁ w₁ =>
          rw [walkFrom_next hresult]
          rw [hresult] at hround
          cases hround with
          | @again σ' _ hsame hwhy htip hdeleted hwindow =>
              have hdurable' : Durable p chain depth σ'.db := by
                rw [hsame.db]
                exact hdurable
              have hstay : WalkedBack p chain depth t w 0 { t with db := σ' } w₁ :=
                WalkedBack.none hdurable hlast hwalk hsame.db rfl rfl hdeleted hwindow
              obtain ⟨n, heq, hlength⟩ := ih (t := { t with db := σ' }) (w := w₁) hdurable' hlast
                (by simpa using hstay.walk)
              exact ⟨n, by rw [heq, hdeleted], hlength⟩
          | @rolledBack b below left σ' _ hchain hdepth hroom hwhy htip hrolled hdeleted hwindow =>
              subst hchain hdepth
              have hspent := hwalk.spent
              have hlength : w₁.blocksDeleted.length = w.blocksDeleted.length + 1 := by
                rw [hdeleted, List.length_append, List.length_singleton]
              obtain ⟨n, heq, hnewest⟩ := ih
                (t := { t with
                  db := σ'
                  lastBlocks := (windowOf below left).reverse
                  reorgRollbacksThisProcess := t.reorgRollbacksThisProcess + 1 })
                (w := w₁) hrolled.durable rfl
                ⟨by rw [hlength, hwindow]; omega, by rw [hwindow]; exact hwalk.budget,
                  by rw [hlength, hwindow]; omega⟩
              refine ⟨n + 1, ?_, ?_⟩
              · rw [heq, hdeleted, newestBlocks, List.append_assoc, List.singleton_append]
              · rw [newestBlocks, List.length_cons, hnewest]
      | returned t₁ w₁ =>
          rw [walkFrom_returned hresult]
          rw [hresult] at hround
          cases hround with
          | agreed => exact ⟨0, by simp [hnone, WalkResult.walk]⟩
      | threw t₁ w₁ error =>
          rw [walkFrom_threw hresult]
          rw [hresult] at hround
          cases hround with
          | threw => exact ⟨0, by simp [hnone, WalkResult.walk]⟩

/-- **The refusal above the node's tip**: a gap the budget cannot cover ends the walk before the next
deletion. -/
theorem verifyReorgRound_refuses (hdurable : Durable p chain depth t.db.db) {tip : Int}
    (hknown : w.tip = some tip) (habove : tip < chain.length - 1)
    (hgap : (w.undoWindow.budget : Int) < w.blocksDeleted.length + (chain.length - 1 - tip))
    (answers : NodeAnswers) : ∃ error, t.verifyReorgRound w answers = .threw t w error := by
  unfold verifyReorgRound
  cases chain with
  | nil =>
      dsimp only
      split
      · exact ⟨_, rfl⟩
      · next hash _ =>
          have hnone : t.db.getBlock hash = none := by
            rw [hdurable.getBlock]
            rfl
          simp only [hnone, Option.filter_none, repairLastBlockPointerFromScan,
            hdurable.getLastBlock_nil]
          exact ⟨_, rfl⟩
  | cons b rest =>
      have hlength : (((b :: rest).length : Int) - 1) = rest.length := by
        rw [List.length_cons]
        omega
      rw [hlength] at habove hgap
      have hindex : t.db.getLastBlockHeight = rest.length := hdurable.getLastBlockHeight.trans hlength
      have hblock : t.db.getBlock b.hash = some (tipRecord b rest) := hdurable.getBlock_tip
      have hfilter : (some (tipRecord b rest)).filter
          (fun block => decide (block.h = (rest.length : Int))) = some (tipRecord b rest) := by
        simp [tipRecord]
      simp only [hindex, hdurable.getLastBlockHash, hblock, hfilter, hknown, habove, decide_true,
        refuseAboveTipWalkPastBudget, Option.getD_some, true_and]
      rw [if_pos hgap]
      exact ⟨_, rfl⟩

end Deleted

/-- What a walk leaves of a store whose newest blocks are `s.chain`, from the reloaded tracker `t`
on. -/
structure ReorgOutcome (s : Sys) (t : Tracker) (nodeTipHeight : Option Int)
    (answers : List NodeAnswers) (n : Nat) (result : WalkResult) : Prop where
  /-- No more blocks go than the window held at entry, nor more than the undo depth. -/
  within : n ≤ min t.lastBlocks.length t.undoBlocks
  deleted : result.walk.blocksDeleted = newestBlocks s.chain n
  /-- However it ends, the store is one of the shorter chain, and the window in memory is the stored
  one. -/
  stored : ∃ depth, Durable (s.provenance.unwindN s.chain n) (s.chain.drop n) depth
    result.tracker.db.db
  window : result.tracker.lastBlocks = loadLastBlocksSortedByHeight result.tracker.db
  /-- It returns on a tip that the node gave. -/
  agreed : ∀ t' w', result = .returned t' w' →
    ∃ hash, t'.db.getLastBlockHash = some hash ∧ ∃ a ∈ answers, a.blockHash = some hash
  /-- With one chain presented it gives up no block the node has. -/
  shared : ∀ node, Presented node t (t.startWalk nodeTipHeight) answers →
    (∀ tip, nodeTipHeight = some tip → tip = nodeTip node) →
      sharedWith node (s.chain.drop n) = sharedWith node s.chain ∧
        ∀ t' w', result = .returned t' w' → s.chain.drop n = sharedWith node s.chain
  /-- A node tip further below than the budget reaches is refused as the store stands. -/
  refused : answers ≠ [] → ∀ tip, nodeTipHeight = some tip → tip < s.chain.length - 1 →
    (min t.lastBlocks.length t.undoBlocks : Int) < s.chain.length - 1 - tip →
      ∃ error, result = .threw t (t.startWalk nodeTipHeight) error
  /-- The coins are exact when no bulk-seeded block went that spent one of them. -/
  coins : CoinsExact result.tracker.db.db (s.chain.drop n) ↔ s.provenance.Restorable s.chain n

/-- The step rolls a bulk-seeded block back that spent a coin of the chain below it. -/
def LosesCoins (s s' : Sys) : Prop :=
  ∃ b rest, s.chain = b :: rest ∧ s'.chain = rest ∧ rest.length < s.provenance.seeded ∧
    ∃ o ∈ b.spent, (utxo rest o).isSome

/-- A step keeps what the store stands for or takes its newest block away. -/
theorem InvAt.step_chain {s s' : Sys} {depth : Nat} (hinv : InvAt s depth) (hstep : Step s s') :
    s'.provenance = s.provenance ∧ s.chain <:+ s'.chain ∨
      ∃ b rest, s.chain = b :: rest ∧ s'.chain = rest ∧
        s'.provenance = s.provenance.unwind b rest := by
  cases hstep with
  | flush => exact Or.inl ⟨rfl, List.suffix_append _ _⟩
  | @walkNext entry w w' answers t hphase hround =>
      have hcases := hinv.round hphase answers
      rw [hround] at hcases
      cases hcases with
      | again hsame _ _ hdeleted _ =>
          rw [Sys.afterRound_of_same hdeleted]
          exact Or.inl ⟨rfl, List.suffix_rfl⟩
      | rolledBack hchain _ _ _ _ hrolled hdeleted _ =>
          rw [Sys.afterRound_of_deleted hchain hdeleted]
          exact Or.inr ⟨_, _, hchain, rfl, rfl⟩
  | stage | stageFailed | cleanup | mismatch | tipBelow | repair | rollBackToNodeTip | walkReturned
  | walkRefused | walkFailed | finishMismatch | finishTipBelow | restart =>
      exact Or.inl ⟨rfl, List.suffix_rfl⟩

/-- A store with no coin missing. -/
def NothingLost (s : Sys) : Prop := Inv s ∧ s.provenance.lost = ∅

theorem NothingLost.coinsExact {s : Sys} (hnothing : NothingLost s) : CoinsExact s.db s.chain := by
  obtain ⟨⟨depth, hinv⟩, hlost⟩ := hnothing
  rw [hinv.durable.coinsExact_iff, hlost]
  exact fun o _ => Finset.notMem_empty o

theorem NothingLost.step {s s' : Sys} (hnothing : NothingLost s) (hstep : Step s s')
    (hkept : ¬ LosesCoins s s') : NothingLost s' := by
  obtain ⟨⟨depth, hinv⟩, hlost⟩ := hnothing
  refine ⟨Inv.step ⟨depth, hinv⟩ hstep, ?_⟩
  rcases hinv.step_chain hstep with ⟨hprovenance, -⟩ | ⟨b, rest, hchain, hchain', hprovenance⟩
  · rw [hprovenance, hlost]
  · rw [hprovenance, Finset.eq_empty_iff_forall_notMem]
    intro o hmem
    obtain ⟨hor, hcreated⟩ := mem_unwind_lost.mp hmem
    rw [hlost] at hor
    obtain ⟨hseeded, hspent⟩ := hor.resolve_left (Finset.notMem_empty o)
    have hvalid := hinv.durable.valid
    rw [hchain] at hvalid
    have hcoin := (hvalid.1.spendable o hspent).resolve_left (by simp [hcreated])
    exact hkept ⟨b, rest, hchain, hchain', hseeded, o, hspent, hcoin⟩

theorem NothingLost.not_coinsExact {s s' : Sys} (hnothing : NothingLost s) (hstep : Step s s')
    (hloses : LosesCoins s s') : ¬ CoinsExact s'.db s'.chain := by
  obtain ⟨⟨depth, hinv⟩, -⟩ := hnothing
  obtain ⟨b, rest, hchain, hchain', hseeded, o, hspent, hcoin⟩ := hloses
  have hprovenance : s'.provenance = s.provenance.unwind b rest := by
    rcases hinv.step_chain hstep with ⟨-, hle⟩ | ⟨c, below, heq, -, hprovenance⟩
    · have hlength := hle.length_le
      rw [hchain, hchain', List.length_cons] at hlength
      omega
    · rw [hchain] at heq
      obtain ⟨rfl, rfl⟩ := List.cons.inj heq
      exact hprovenance
  have hvalid := hinv.durable.valid
  rw [hchain] at hvalid
  have hcreated : b.created rest.length o = none := by
    by_contra hsome
    obtain ⟨out, hout⟩ := Option.isSome_iff_exists.mp hcoin
    have hever := everCreated_of_utxo hout
    rw [hvalid.1.fresh (Option.isSome_iff_ne_none.mpr hsome)] at hever
    cases hever
  obtain ⟨depth', hinv', -⟩ := hinv.step hstep
  rw [hinv'.durable.coinsExact_iff, hprovenance, hchain']
  exact fun hall => hall o hcoin (mem_unwind_lost.mpr ⟨Or.inr ⟨hseeded, hspent⟩, hcreated⟩)

theorem FromStore.nothingLost {s : Sys} (hinit : FromStore s) : NothingLost s := by
  refine ⟨hinit.inv, ?_⟩
  rcases hinit with ⟨_, _, _, _, _, hprovenance, _⟩ |
    ⟨_, _, _, _, _, _, _, _, _, _, _, _, hprovenance, _⟩ <;> rw [hprovenance] <;> rfl

/-- Along a run nothing below the window it began with goes. -/
theorem InvAt.drop_suffix {s s' : Sys} {depth : Nat} (hinv : InvAt s depth)
    (hrun : Relation.ReflTransGen Step s s') :
    ∃ depth', InvAt s' depth' ∧ s.chain.drop depth <:+ s'.chain ∧
      s.chain.length + depth' ≤ s'.chain.length + depth := by
  induction hrun with
  | refl => exact ⟨depth, hinv, List.drop_suffix _ _, le_rfl⟩
  | tail _ hstep ih =>
      obtain ⟨depth₁, hinv₁, hburied, hbottom⟩ := ih
      obtain ⟨depth₂, hinv₂, hbottom₂⟩ := hinv₁.step hstep
      refine ⟨depth₂, hinv₂, ?_, by omega⟩
      rcases hinv₁.step_chain hstep with ⟨-, hsuffix⟩ | ⟨b, rest, hchain, hchain', -⟩
      · exact hburied.trans hsuffix
      · rw [hchain, hchain', List.length_cons] at hbottom₂
        rw [hchain, List.length_cons] at hbottom
        rw [hchain] at hburied
        rw [hchain']
        rcases List.suffix_cons_iff.mp hburied with heq | hrest
        · -- The window still holds the tip, so the buried part does not reach it.
          have hlength := congrArg List.length heq
          rw [List.length_drop, List.length_cons] at hlength
          omega
        · exact hrest

/-- **Finality.** Whatever the node does and however often the tracker restarts, a block below the
`N` records of a durable state is in the chain of every later one. -/
theorem buried_blocks_final {s s' : Sys} (hreach : Transition.Reachable FromStore Step s)
    (hrun : Relation.ReflTransGen Step s s') :
    s.chain.drop (loadLastBlocksSortedByHeight s.tracker.db).length <:+ s'.chain := by
  obtain ⟨depth, hinv⟩ := Inv.reachable (fun _ => FromStore.inv) hreach
  obtain ⟨-, -, hburied, -⟩ := hinv.drop_suffix hrun
  rw [hinv.durable.loadLastBlocks, List.length_reverse, windowOf_length hinv.durable.depth_le]
  exact hburied

/-- The node swapped a tip whose hash is `hash`. -/
def swapped (hash : Hash) : NodeAnswers := ⟨some (hash + 1), [], true⟩

/-- The first round of a walk over a swapped tip. -/
theorem InvAt.exists_firstRound {s : Sys} {depth : Nat} {b : Block} {rest : Chain}
    (hinv : InvAt s depth) (hchain : s.chain = b :: rest) (hdepth : 0 < depth)
    (hundo : 0 < s.tracker.undoBlocks) :
    ∃ t w, s.tracker.discardBatch.verifyReorgRound (s.tracker.discardBatch.startWalk none)
        (swapped b.hash) = .next t w ∧
      w.tip = none ∧ w.blocksDeleted = [((rest.length : Int), b.hash)] ∧
      w.undoWindow.budget = min depth s.tracker.undoBlocks ∧
      ∃ left, Durable (s.provenance.unwind b rest) rest left t.db.db := by
  obtain ⟨hdurable, hlast, -, -⟩ := hinv.durable.discardBatch
  rw [hchain] at hdurable hlast
  have hwindow := hdurable.window_length hlast
  have hwalk := WalkInv.start hwindow none
  have hbudget := startWalk_budget s.tracker.discardBatch none
  rw [hwindow, show s.tracker.discardBatch.undoBlocks = s.tracker.undoBlocks from rfl] at hbudget
  have hanswer : (swapped b.hash).blockHash = some (b.hash + 1) := rfl
  obtain ⟨t, w, hround, hdeleted, htip, -⟩ := verifyReorgRound_rollsBack hdurable hlast hwalk
    (by rw [hbudget]; exact lt_min hdepth hundo) rfl hanswer (by simp) rfl
  have hcases := verifyReorgRound_cases (swapped b.hash) hdurable hlast hwalk
  rw [hround] at hcases
  refine ⟨t, w, hround, htip, hdeleted, ?_⟩
  cases hcases with
  | again hsame hwhy htip' hkept hwindow' =>
      rw [hdeleted] at hkept
      cases hkept
  | rolledBack hchain' hdepth' hroom hwhy htip' hrolled hdeleted' hwindow' =>
      obtain ⟨rfl, rfl⟩ := List.cons.inj hchain'
      exact ⟨by rw [hwindow', hbudget], _, hrolled.durable⟩

/-- The loop meets a swapped tip and its walk takes the tip away. -/
theorem InvAt.exists_rollBack {s : Sys} {depth : Nat} {b : Block} {rest : Chain}
    (hinv : InvAt s depth) (hphase : s.phase = .idle) (hchain : s.chain = b :: rest)
    (hdepth : 0 < depth) (hundo : 0 < s.tracker.undoBlocks) :
    ∃ s₁ s₂, Step s s₁ ∧ Step s₁ s₂ ∧ s₁.chain = b :: rest ∧ s₁.provenance = s.provenance ∧
      s₂.chain = rest := by
  obtain ⟨t, w, hround, -, hdeleted, -, -⟩ := hinv.exists_firstRound hchain hdepth hundo
  have hmismatch := Step.mismatch hphase
  have hwalked := Step.walkNext (s := { s with
    tracker := s.tracker.discardBatch
    phase := .walking .mismatch (s.tracker.discardBatch.startWalk none)
    staged := [] }) rfl hround
  refine ⟨_, _, hmismatch, hwalked, hchain, rfl, ?_⟩
  exact congrArg Sys.chain (Sys.afterRound_of_deleted (s := { s with
    tracker := s.tracker.discardBatch
    phase := .walking .mismatch (s.tracker.discardBatch.startWalk none)
    staged := [] }) hchain hdeleted)

/-- The tip of two blocks goes, the one below a window of one block stays. -/
theorem buried_blocks_final_swapped : ∃ s s' : Sys, s.chain = [spendingBlock, firstBlock] ∧
    s'.chain = [firstBlock] ∧ Relation.ReflTransGen Step s s' ∧
      s.chain.drop (loadLastBlocksSortedByHeight s.tracker.db).length <:+ s'.chain := by
  obtain ⟨s, hreach, hphase, hstaged, hchain, hundo, hlast⟩ :=
    reachable_of_valid validChain_spending 1
  have hreach' := hreach.mono (fun _ hinit => (Or.inl hinit : FromStore _)) fun _ _ hstep => hstep
  obtain ⟨depth, hinv⟩ := reachable_inv hreach
  have hdepth := hinv.durable.window_length (hinv.settled_last hphase hstaged)
  obtain ⟨s₁, s₂, hstep₁, hstep₂, -, -, hchain₂⟩ := hinv.exists_rollBack hphase hchain
    (by rw [← hdepth, hlast]; decide) (by rw [hundo]; decide)
  have hrun := (Relation.ReflTransGen.single hstep₁).tail hstep₂
  exact ⟨s, s₂, hchain, hchain₂, hrun, buried_blocks_final hreach' hrun⟩

/-- A tracker started on a bulk load of two blocks, the second spending a coin of the first. -/
theorem exists_seeded (undoBlocks : Nat) : ∃ s, FromSeed s ∧ InvAt s 1 ∧ s.phase = .idle ∧
    s.chain = [spendingBlock, firstBlock] ∧ s.tracker.undoBlocks = undoBlocks ∧
    s.provenance.seeded = 2 := by
  obtain ⟨load, hchain, hopts⟩ := exists_seedLoad ⟨⟨1, 1, true⟩, ⟨1, 0⟩, 3⟩ validChain_spending
    (by simp)
    (show CutInto _ [⟨0, [firstBlock]⟩, ⟨1, [spendingBlock]⟩] from
      ⟨⟨rfl, by simp, rfl, by simp, trivial⟩, rfl⟩) (by decide)
  have hloaded := load.durable holdsNothing_empty
  have hseed := load.fromSeed holdsNothing_empty (hloaded.start undoBlocks)
  obtain ⟨depth, hinv⟩ := hseed.inv
  have hwindow := hloaded.window_length (t := Tracker.load
    ((loadBatches load.opts.batchSize load.keys).foldl putBatch ∅) undoBlocks)
    (hloaded.load undoBlocks).2
  have hdepth : depth = min load.opts.undoBlocks load.chain.length :=
    (hinv.durable.window_length (hinv.settled_last rfl rfl)).symm.trans hwindow
  have hone : depth = 1 := by
    rw [hdepth, hchain, hopts]
    decide
  subst hone
  refine ⟨_, hseed, hinv, rfl, hchain, rfl, ?_⟩
  exact show load.chain.length = 2 by
    rw [hchain]
    rfl

/-- A bulk load of two blocks, the second spending a coin of the first, and a walk that has rolled
the second back. -/
theorem exists_seededWalk : ∃ s t w, FromSeed s ∧ s.chain = [spendingBlock, firstBlock] ∧
    s.tracker.discardBatch.verifyReorgRound (s.tracker.discardBatch.startWalk none)
      (swapped spendingBlock.hash) = .next t w ∧
    w.tip = none ∧ w.blocksDeleted.length = 1 ∧ w.undoWindow.budget = 1 ∧
    (∃ p depth, Durable p [firstBlock] depth t.db.db) ∧ ¬ CoinsExact t.db.db [firstBlock] := by
  obtain ⟨s, hseed, hinv, hphase, hchain, hundo, hseeded⟩ := exists_seeded 1
  obtain ⟨t, w, hround, htip, hdeleted, hbudget, left, hdurable⟩ :=
    hinv.exists_firstRound hchain Nat.one_pos (by rw [hundo]; exact Nat.one_pos)
  refine ⟨s, t, w, hseed, hchain, hround, htip, ?_, ?_, ⟨_, _, hdurable⟩, fun hexact => ?_⟩
  · rw [hdeleted, List.length_singleton]
  · rw [hbudget, hundo, min_self]
  · -- The second block's spend has no recovery record.
    refine hdurable.coinsExact_iff.mp hexact ⟨100, 0⟩ (by decide)
      (mem_unwind_lost.mpr ⟨Or.inr ⟨?_, by decide⟩, by decide⟩)
    rw [hseeded]
    decide

end UtxoTracker

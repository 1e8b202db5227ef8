import UtxoTracker.Bulk.DumpRange
import UtxoTracker.Lib.Fallible
import UtxoTracker.Safety.ReorgWalk
/-!
# Seeds below the undo window

A walk gives up only blocks that the node gave up. While every chain the node serves keeps the
blocks of an anchor, the walks keep them too, however far they go and however often the tracker
restarts. A dump that the orchestrator accepts ends inside the part of the node's chain that a reorg
within the undo window keeps, so its seed never loses a coin.
-/

namespace UtxoTracker

open Tracker Provenance Bulk Transition

/-! ### A node that keeps an anchor -/

/-- The answers of one round, each of them read off a chain that extends the anchor. -/
structure Anchored (anchor : List Hash) (height : Int) (answers : NodeAnswers) : Prop where
  hash : ∀ hash, answers.blockHash = some hash →
    ∃ node, anchor <+: node ∧ nodeHash node height = some hash
  tips : ∀ tip, some tip ∈ answers.tips → ∃ node, anchor <+: node ∧ tip = nodeTip node

/-- A step of the loop at a node that keeps the anchor. -/
inductive AnchoredStep (anchor : List Hash) : Sys → Sys → Prop where
  /-- A step that is no round of a walk, or ends one. A walk that it opens knows at most a tip that
  the node gave. -/
  | outside {s s' : Sys} (hstep : Step s s')
      (houtside : ∀ entry w, s.phase = .walking entry w →
        ∀ entry' w', s'.phase ≠ .walking entry' w')
      (hentry : ∀ entry w tip, s'.phase = .walking entry w → w.tip = some tip →
        ∃ node, anchor <+: node ∧ tip = nodeTip node) :
      AnchoredStep anchor s s'
  | round {s : Sys} {entry : WalkEntry} {w w' : Walk} {answers : NodeAnswers} {t : Tracker}
      (hphase : s.phase = .walking entry w)
      (hanswers : Anchored anchor s.tracker.db.getLastBlockHeight answers)
      (hround : s.tracker.verifyReorgRound w answers = .next t w') :
      AnchoredStep anchor s (s.afterRound entry w w' t)

theorem AnchoredStep.step {anchor : List Hash} {s s' : Sys} (h : AnchoredStep anchor s s') :
    Step s s' := by
  cases h with
  | outside hstep => exact hstep
  | round hphase _ hround => exact .walkNext hphase hround

/-- A chain's hashes by height. -/
def hashesByHeight (chain : Chain) : List Hash := (chain.map Block.hash).reverse

theorem hashesByHeight_cons (b : Block) (rest : Chain) :
    hashesByHeight (b :: rest) = hashesByHeight rest ++ [b.hash] := by
  rw [hashesByHeight, List.map_cons, List.reverse_cons, hashesByHeight]

theorem length_hashesByHeight (chain : Chain) : (hashesByHeight chain).length = chain.length := by
  rw [hashesByHeight, List.length_reverse, List.length_map]

/-- What the walks of an anchored run keep: the blocks of `kept`, and no walk knows a tip below
them. -/
structure Keeps (kept : Chain) (s : Sys) : Prop where
  suffix : kept <:+ s.chain
  tip : ∀ entry w tip, s.phase = .walking entry w → w.tip = some tip →
    (kept.length : Int) - 1 ≤ tip

section Walk

variable {anchor : List Hash} {kept : Chain} {s s' : Sys} {depth : Nat}

theorem le_nodeTip (hkept : hashesByHeight kept <+: anchor) {node : List Hash}
    (hnode : anchor <+: node) : (kept.length : Int) - 1 ≤ nodeTip node := by
  have hlength := (hkept.trans hnode).length_le
  rw [length_hashesByHeight] at hlength
  rw [nodeTip]
  omega

/-- **A block of the anchor is not refuted.** -/
theorem Anchored.not_refuted {b : Block} {rest : Chain} {w : Walk} {answers : NodeAnswers}
    (hanswers : Anchored anchor rest.length answers)
    (hkept : hashesByHeight (b :: rest) <+: anchor)
    (htip : ∀ tip, w.tip = some tip → (rest.length : Int) ≤ tip) :
    ¬ Refuted w answers b rest := by
  rintro (⟨tip, hknown, hbelow⟩ | ⟨hash, hgiven, hdiffers⟩)
  · have hreached := htip tip hknown
    omega
  · obtain ⟨node, hnode, hanswer⟩ := hanswers.hash hash hgiven
    rw [nodeHash, if_neg (by omega), Int.toNat_natCast] at hanswer
    have htop : rest.length < (hashesByHeight (b :: rest)).length := by
      rw [length_hashesByHeight]
      exact Nat.lt_succ_self _
    have hours := List.prefix_iff_getElem?.mp (hkept.trans hnode) rest.length htop
    rw [hanswer] at hours
    refine hdiffers ((Option.some.inj hours).trans ?_).symm
    simp only [hashesByHeight_cons, ← length_hashesByHeight rest]
    exact List.getElem_concat_length rfl _

theorem Sys.afterRound_phase (s : Sys) (entry : WalkEntry) (before after : Walk) (t : Tracker) :
    (s.afterRound entry before after t).phase = .walking entry after := by
  unfold Sys.afterRound
  split
  · split_ifs <;> rfl
  · rfl

/-- A step that is no round of a walk takes no block away. -/
theorem Step.suffix_of_outside (hstep : Step s s')
    (houtside : ∀ entry w, s.phase = .walking entry w →
      ∀ entry' w', s'.phase ≠ .walking entry' w') :
    s.chain <:+ s'.chain := by
  cases hstep with
  | flush => exact List.suffix_append _ _
  | @walkNext entry w w' answers t hphase hround =>
      exact absurd (s.afterRound_phase entry w w' t) (houtside entry w hphase entry w')
  | stage | stageFailed | cleanup | mismatch | tipBelow | repair | rollBackToNodeTip | walkReturned
  | walkRefused | walkFailed | finishMismatch | finishTipBelow | restart => exact List.suffix_rfl

theorem Keeps.step (hkeeps : Keeps kept s) (hkept : hashesByHeight kept <+: anchor)
    (hinv : InvAt s depth) (hstep : AnchoredStep anchor s s') : Keeps kept s' := by
  cases hstep with
  | outside hstep houtside hentry =>
      refine ⟨hkeeps.suffix.trans (hstep.suffix_of_outside houtside), ?_⟩
      intro entry w tip hphase hknown
      obtain ⟨node, hnode, rfl⟩ := hentry entry w tip hphase hknown
      exact le_nodeTip hkept hnode
  | @round entry w w' answers t hphase hanswers hround =>
      have hcases := hinv.round hphase answers
      rw [hround] at hcases
      cases hcases with
      | again hsame _ htip hdeleted _ =>
          rw [Sys.afterRound_of_same hdeleted]
          refine ⟨hkeeps.suffix, fun entry' w₁ tip hwalking hknown => ?_⟩
          obtain ⟨rfl, rfl⟩ : entry = entry' ∧ w' = w₁ := by
            simpa using hwalking
          rcases htip with hold | hrefreshed
          · exact hkeeps.tip _ w tip hphase (hold ▸ hknown)
          · rw [hrefreshed] at hknown
            rcases refreshWalkTip_mem hknown with hold | hmem
            · exact hkeeps.tip _ w tip hphase hold
            · obtain ⟨node, hnode, rfl⟩ := hanswers.tips tip hmem
              exact le_nodeTip hkept hnode
      | @rolledBack b rest _ _ _ hchain _ _ hwhy htip _ hdeleted _ =>
          rw [Sys.afterRound_of_deleted hchain hdeleted]
          have hheight : s.tracker.db.getLastBlockHeight = rest.length := by
            have hlast := hinv.durable.getLastBlockHeight
            rw [hchain, List.length_cons] at hlast
            rw [hlast]
            omega
          rw [hheight] at hanswers
          refine ⟨?_, fun entry' w₁ tip hwalking hknown => ?_⟩
          · have hsuffix := hkeeps.suffix
            rw [hchain] at hsuffix
            rcases List.suffix_cons_iff.mp hsuffix with rfl | hrest
            · refine absurd hwhy (hanswers.not_refuted hkept fun tip hknown => ?_)
              have hreached := hkeeps.tip _ w tip hphase hknown
              rw [List.length_cons] at hreached
              omega
            · exact hrest
          · obtain ⟨rfl, rfl⟩ : entry = entry' ∧ w' = w₁ := by
              simpa using hwalking
            exact hkeeps.tip _ w tip hphase (htip ▸ hknown)

end Walk

/-- **Coins over an anchored run**: with every seeded block kept, none is lost. -/
theorem coinsExact_of_anchored {anchor : List Hash} {kept : Chain} {s : Sys} {run : List Sys}
    (hkept : hashesByHeight kept <+: anchor) (hnothing : NothingLost s) (hkeeps : Keeps kept s)
    (hseeded : s.provenance.seeded ≤ kept.length)
    (hrun : (s :: run).IsChain (AnchoredStep anchor)) :
    ∀ t ∈ s :: run, kept <:+ t.chain ∧ CoinsExact t.db t.chain := by
  have hstep : ∀ t u : Sys,
      NothingLost t ∧ Keeps kept t ∧ t.provenance.seeded ≤ kept.length →
        AnchoredStep anchor t u →
          NothingLost u ∧ Keeps kept u ∧ u.provenance.seeded ≤ kept.length := by
    rintro t u ⟨hnothing, hkeeps, hseeded⟩ hstep
    obtain ⟨depth, hinv⟩ := hnothing.1
    have hkeeps' := hkeeps.step hkept hinv hstep
    refine ⟨hnothing.step hstep.step ?_, hkeeps', ?_⟩
    · rintro ⟨b, rest, -, hchain', hlost, -⟩
      have hlength := (hchain' ▸ hkeeps'.suffix).length_le
      omega
    · rcases hinv.step_chain hstep.step with ⟨hprovenance, -⟩ | ⟨b, rest, -, -, hprovenance⟩
      · rw [hprovenance]
        exact hseeded
      · rw [hprovenance]
        exact (Nat.min_le_left _ _).trans hseeded
  intro t ht
  obtain ⟨hnothing', hkeeps', -⟩ :=
    forall_of_isChain hstep ⟨hnothing, hkeeps, hseeded⟩ hrun t ht
  exact ⟨hkeeps'.suffix, hnothing'.coinsExact⟩

/-! ### Where a dump ends -/

/-- **The guard**: without the override a run dumps no block of the undo window. -/
theorem dumpEnd_le {args : RangeArgs} {chainTipAtDump first dumpEnd : Int} {undoBlocks : Nat}
    (hallow : args.allowUndoWindow = false)
    (hrange : dumpRange args chainTipAtDump undoBlocks = .ok (first, dumpEnd)) :
    dumpEnd ≤ chainTipAtDump - undoBlocks := by
  obtain ⟨-, -, hrange⟩ := Fallible.bind_eq_ok_iff.mp hrange
  obtain ⟨resolved, hresolve, hresult⟩ := Fallible.bind_eq_ok_iff.mp hrange
  obtain ⟨-, rfl⟩ := Prod.mk.inj (Except.ok.inj hresult)
  cases hlast : args.last with
  | some last =>
      have hargs : phaseDumpArgs (clampTipSafety args undoBlocks) =
          { start := args.start
            last := some last
            tipSafety := defaultTipSafety
            tipSafetyExplicit := false
            allowUndoWindow := false
            chunkSize := args.chunkSize } := by
        simp [phaseDumpArgs, clampTipSafety, hlast, hallow]
      rw [hargs, resolveDumpEnd] at hresolve
      dsimp only at hresolve
      split_ifs at hresolve
      obtain ⟨safeEnd, hguard, hresult⟩ := Fallible.bind_eq_ok_iff.mp hresolve
      obtain rfl := Except.ok.inj hresult
      rw [assertExplicitToOutsideUndoWindow] at hguard
      by_cases hsafe : last ≤ undoWindowBounds chainTipAtDump undoBlocks
      · exact hsafe
      · rw [if_neg hsafe, Bool.not_false, if_pos rfl] at hguard
        cases hguard
  | none =>
      have hargs : phaseDumpArgs (clampTipSafety args undoBlocks) =
          { start := args.start
            last := none
            tipSafety := max args.tipSafety undoBlocks
            tipSafetyExplicit := true
            allowUndoWindow := false
            chunkSize := args.chunkSize } := by
        simp [phaseDumpArgs, clampTipSafety, effectiveTipSafety, hlast]
      rw [hargs, resolveDumpEnd] at hresolve
      dsimp only at hresolve
      split_ifs at hresolve
      obtain rfl := Except.ok.inj hresolve
      have hclamped := le_max_right args.tipSafety (undoBlocks : Int)
      omega

/-- The blocks that a reorg within the undo window keeps. -/
def settled (undoBlocks : Nat) (node : List Hash) : List Hash :=
  node.take (node.length - undoBlocks)

end UtxoTracker

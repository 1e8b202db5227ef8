import UtxoTracker.Lib.SteadyReading
import UtxoTracker.Safety.UtxoSet
import UtxoTracker.Tracker.NodeTip
/-!
# No block is deleted on an unsettled tip

The walk's loop and the sync loop's are one poller, and what that poller accepts held still. The
walk's tip is then never below a settled one, so a block that the walk takes off without asking the
node lies above a tip at which the node held still.
-/

namespace UtxoTracker

open SteadyReading

/-! ### The two loops -/

theorem settleWalkTipLoop_eq (reads stableReads : Nat) (previous : Int)
    (readings : List (Option Int)) :
    settleWalkTipLoop reads previous stableReads readings =
      settle tipSettleStableReads reads previous stableReads readings := by
  induction reads generalizing previous stableReads readings with
  | zero => rfl
  | succ reads ih =>
      rcases readings with _ | ⟨_ | tip, rest⟩
      · rfl
      · rfl
      · simp only [settleWalkTipLoop, settle, ih]

variable (network : ConsensusNetwork)

/-- What `settleNodeTipBelow` reads: the height of a usable answer, absent or not. -/
def nodeReading (reply : Option BlockchainInfo) : Option (Option Int) :=
  (reply.filter fun info => nodeTipIsParseable info network && !nodeStillCatchingUp info).map
    BlockchainInfo.blocks

theorem join_nodeReading (reply : Option BlockchainInfo) :
    (nodeReading network reply).join = readWalkTip network reply := by
  rcases reply with _ | info
  · rfl
  · rcases hblocks : info.blocks with _ | tip <;>
      cases hparse : nodeTipIsParseable info network <;>
      cases hcatching : nodeStillCatchingUp info <;>
      simp [nodeReading, readWalkTip, Option.filter, hblocks, hparse, hcatching]

theorem settleNodeTipBelowLoop_eq (reads stableReads : Nat) (previous : Option Int)
    (replies : List (Option BlockchainInfo)) :
    (SyncLoop.settleNodeTipBelowLoop network reads previous stableReads replies).map
        BlockchainInfo.blocks =
      settle tipSettleStableReads reads previous stableReads
        (replies.map (nodeReading network)) := by
  induction reads generalizing previous stableReads replies with
  | zero => rfl
  | succ reads ih =>
      rcases replies with _ | ⟨_ | info, rest⟩
      · rfl
      · rfl
      · cases hparse : nodeTipIsParseable info network <;>
          cases hcatching : nodeStillCatchingUp info <;>
          simp only [SyncLoop.settleNodeTipBelowLoop, settle, List.map_cons, nodeReading,
            Option.filter, hparse, hcatching, Bool.not_true, Bool.not_false, Bool.or_false,
            Bool.or_true, Bool.and_false, Bool.and_true, Bool.false_eq_true, if_true, if_false,
            Option.map_some, Option.map_none]
        split_ifs
        · rfl
        · exact ih _ _ rest
        · exact ih _ _ rest

/-- Every answer of the node carries a height. -/
def IntegerReadings (replies : List (Option BlockchainInfo)) : Prop :=
  ∀ info, some info ∈ replies → info.blocks.isSome

theorem map_nodeReading {replies : List (Option BlockchainInfo)}
    (hinteger : IntegerReadings replies) :
    replies.map (nodeReading network) =
      (replies.map (readWalkTip network)).map (Option.map some) := by
  rw [List.map_map]
  refine List.map_congr_left fun reply hmem => ?_
  rw [Function.comp_apply, ← join_nodeReading]
  rcases hread : nodeReading network reply with _ | reading
  · rfl
  · obtain ⟨info, hfilter, rfl⟩ := Option.map_eq_some_iff.mp hread
    obtain ⟨rfl, -⟩ := Option.filter_eq_some_iff.mp hfilter
    obtain ⟨tip, htip⟩ := Option.isSome_iff_exists.mp (hinteger info hmem)
    simp [htip]

/-- On integer readings the two loops accept the same tips. -/
theorem settleNodeTipBelowLoop_eq_settleWalkTipLoop (reads stableReads : Nat) (first : Int)
    {replies : List (Option BlockchainInfo)} (hinteger : IntegerReadings replies) :
    (SyncLoop.settleNodeTipBelowLoop network reads (some first) stableReads replies).map
        BlockchainInfo.blocks =
      (settleWalkTipLoop reads first stableReads (replies.map (readWalkTip network))).map some := by
  rw [settleNodeTipBelowLoop_eq, map_nodeReading network hinteger, settleWalkTipLoop_eq]
  exact settle_map (Option.some_injective Int) _ _ _ _ _

/-! ### Settled tips -/

/-- Within one settle window of re-reads, the node reported `tip` in that many consecutive usable
re-reads, each equal to the reading before it. -/
def SettledIn (tip : Int) (before : Option Int) (rereads : List (Option BlockchainInfo)) : Prop :=
  Held tipSettleStableReads tip
    (before :: (rereads.take tipSettleMaxReads).map (readWalkTip network))

theorem settledIn_of_settleNodeTipBelow {before : Option Int} {rereads : List (Option BlockchainInfo)}
    {info : BlockchainInfo} {tip : Int} (htip : info.blocks = some tip)
    (hsettled : SyncLoop.settleNodeTipBelowLoop network tipSettleMaxReads before 0 rereads =
      some info) :
    SettledIn network tip before rereads := by
  have hsettle := settleNodeTipBelowLoop_eq network tipSettleMaxReads 0 before rereads
  rw [hsettled, Option.map_some, htip] at hsettle
  have hheld := (settle_held hsettle.symm).map Option.join
  simp only [List.map_append, List.map_replicate, List.map_take, List.map_map] at hheld
  have hreadings : Option.join ∘ nodeReading network = readWalkTip network := by
    funext reply
    exact join_nodeReading network reply
  rw [hreadings, ← List.map_take] at hheld
  exact hheld

theorem settledIn_of_settleWalkTip {first : Option BlockchainInfo} {tip reading : Int}
    {rereads : List (Option BlockchainInfo)} (hfirst : readWalkTip network first = some reading)
    (hsettled : settleWalkTip reading (rereads.map (readWalkTip network)) = some tip) :
    SettledIn network tip (readWalkTip network first) rereads := by
  unfold settleWalkTip at hsettled
  rw [settleWalkTipLoop_eq] at hsettled
  have hheld := settle_held hsettled
  rw [← List.map_take] at hheld
  rw [SettledIn, hfirst]
  exact hheld

/-! ### The walk -/

/-- What one round of the walk hears, as the node answers it. -/
structure NodeReplies where
  blockHash : Option Hash
  /-- The `getblockchaininfo` answers after a failed hash fetch. -/
  infos : List (Option BlockchainInfo)
  commits : Bool
  deriving DecidableEq, Repr

def NodeReplies.answers (replies : NodeReplies) : NodeAnswers :=
  { blockHash := replies.blockHash
    tips := replies.infos.map (readWalkTip network)
    commits := replies.commits }

/-- The first reading of a round, and the re-reads that settle it. -/
def NodeReplies.SettledIn (tip : Int) (replies : NodeReplies) : Prop :=
  ∃ first rereads, replies.infos = first :: rereads ∧
    UtxoTracker.SettledIn network tip (readWalkTip network first) rereads

/-- A refresh raises the walk's tip, or moves it to a settled one. -/
theorem refreshWalkTip_settled {currentTip : Option Int} {replies : NodeReplies} {tip : Int}
    (hrefreshed : refreshWalkTip currentTip (replies.answers network).tips = some tip) :
    (∃ current, currentTip = some current ∧ current ≤ tip) ∨ replies.SettledIn network tip := by
  rcases replies with ⟨blockHash, _ | ⟨first, rereads⟩, commits⟩
  · exact Or.inl ⟨tip, hrefreshed, Int.le_refl tip⟩
  · rcases hread : readWalkTip network first with _ | reading
    · simp only [NodeReplies.answers, List.map_cons, hread, refreshWalkTip] at hrefreshed
      exact Or.inl ⟨tip, hrefreshed, Int.le_refl tip⟩
    · have hsettledIn : ∀ next,
          settleWalkTip reading (rereads.map (readWalkTip network)) = some next →
          NodeReplies.SettledIn network next ⟨blockHash, first :: rereads, commits⟩ :=
        fun next hnext => ⟨first, rereads, rfl, settledIn_of_settleWalkTip network hread hnext⟩
      simp only [NodeReplies.answers, List.map_cons, hread, refreshWalkTip] at hrefreshed
      split_ifs at hrefreshed with hmust
      · rcases hsettle : settleWalkTip reading (rereads.map (readWalkTip network)) with _ | next
        · rw [hsettle] at hrefreshed
          exact Or.inl ⟨tip, hrefreshed, Int.le_refl tip⟩
        · rw [hsettle] at hrefreshed
          obtain rfl := Option.some.inj hrefreshed
          exact Or.inr (hsettledIn _ hsettle)
      · obtain rfl := Option.some.inj hrefreshed
        rcases currentTip with _ | current
        · exact absurd rfl hmust
        · refine Or.inl ⟨current, rfl, ?_⟩
          simpa using hmust

namespace Tracker

open Tracker

/-- The tip that the next round asks the node for: the committed one, unless its pointer needs
repair or it is above the walk's tip. -/
def asksNode (t : Tracker) (w : Walk) : Option (Int × Hash) :=
  match t.db.getLastBlockHash with
  | none => none
  | some lastBlockHash =>
      match (t.db.getBlock lastBlockHash).filter fun block =>
        block.h = t.db.getLastBlockHeight with
      | none => none
      | some _ =>
          if w.tip.any fun tip => tip < t.db.getLastBlockHeight then none
          else some (t.db.getLastBlockHeight, lastBlockHash)

/-- What a round that goes on can have done. -/
inductive RoundNext (t : Tracker) (w : Walk) (answers : NodeAnswers) : Tracker → Walk → Prop
  | repaired {t' : Tracker} : RoundNext t w answers t' w
  | reread (hfailed : answers.blockHash = none) :
      RoundNext t w answers t { w with tip := refreshWalkTip w.tip answers.tips }
  | retried {t' : Tracker} : RoundNext t w answers t' { w with retryCount := w.retryCount + 1 }
  | rolledBack {t' : Tracker} {height : Int} {hash : Hash}
      (hwhy : (∃ tip, w.tip = some tip ∧ tip < height) ∨
        ∃ nodeHash, t.asksNode w = some (height, hash) ∧ answers.blockHash = some nodeHash ∧
          nodeHash ≠ hash) :
      RoundNext t w answers t'
        { w with retryCount := 0, blocksDeleted := w.blocksDeleted ++ [(height, hash)] }

theorem rollBackRound_next {t t' : Tracker} {w w' : Walk} {answers : NodeAnswers} {height : Int}
    {hash : Hash} {block : BlockRecord}
    (hround : t.rollBackRound w answers height hash block = .next t' w') :
    w' = { w with retryCount := w.retryCount + 1 } ∨
      w' = { w with retryCount := 0, blocksDeleted := w.blocksDeleted ++ [(height, hash)] } := by
  unfold rollBackRound at hround
  split at hround
  · cases hround
  · split at hround
    · cases hround
    · cases hround
      exact Or.inl rfl
    · cases hround
      exact Or.inr rfl

theorem asksNode_eq_some {t : Tracker} {w : Walk} {height : Int} {hash : Hash}
    (hasks : t.asksNode w = some (height, hash)) :
    t.db.getLastBlockHash = some hash ∧ t.db.getLastBlockHeight = height ∧
      (∃ block, ((t.db.getBlock hash).filter fun block =>
        block.h = t.db.getLastBlockHeight) = some block) ∧
      ∀ tip, w.tip = some tip → ¬tip < height := by
  unfold asksNode at hasks
  split at hasks
  · cases hasks
  · next lastBlockHash hhash =>
      split at hasks
      · cases hasks
      · next block hblock =>
          split_ifs at hasks with habove
          cases hasks
          refine ⟨hhash, rfl, ⟨block, hblock⟩, fun tip htip hlt => habove ?_⟩
          rw [htip]
          exact decide_eq_true hlt

/-- A round that asks goes by what the fetch brought. -/
theorem verifyReorgRound_of_asksNode {t : Tracker} {w : Walk} {height : Int} {hash : Hash}
    (hasks : t.asksNode w = some (height, hash)) (answers : NodeAnswers) :
    (answers.blockHash = none ∧ t.verifyReorgRound w answers =
        .next t { w with tip := refreshWalkTip w.tip answers.tips }) ∨
      ∃ nodeHash block, answers.blockHash = some nodeHash ∧ t.verifyReorgRound w answers =
        if hash ≠ nodeHash then t.rollBackRound w answers height hash block
        else .returned (t.recordReorg w) w := by
  obtain ⟨hhash, hheight, ⟨block, hblock⟩, hbelow⟩ := asksNode_eq_some hasks
  have hrefuse : t.refuseAboveTipWalkPastBudget w false height = .ok () := by
    simp [refuseAboveTipWalkPastBudget]
  unfold verifyReorgRound
  simp only [hhash, hblock]
  rw [hheight]
  rcases htip : w.tip with _ | tip
  · rcases hfetch : answers.blockHash with _ | nodeHash
    · refine Or.inl ⟨rfl, ?_⟩
      simp only [hrefuse, Bool.false_eq_true, if_false]
    · refine Or.inr ⟨nodeHash, block, rfl, ?_⟩
      simp only [hrefuse, Bool.false_eq_true, if_false]
  · simp only [hbelow tip htip, decide_false]
    rcases hfetch : answers.blockHash with _ | nodeHash
    · refine Or.inl ⟨rfl, ?_⟩
      simp only [hrefuse, Bool.false_eq_true, if_false]
    · refine Or.inr ⟨nodeHash, block, rfl, ?_⟩
      simp only [hrefuse, Bool.false_eq_true, if_false]

/-- Otherwise it repairs the pointer, or takes the tip off for lying above the walk's. -/
theorem verifyReorgRound_of_not_asksNode {t t' : Tracker} {w w' : Walk} {answers : NodeAnswers}
    (hasks : t.asksNode w = none) (hround : t.verifyReorgRound w answers = .next t' w') :
    w' = w ∨ ∃ tip height hash block, w.tip = some tip ∧ tip < height ∧
      t.rollBackRound w answers height hash block = .next t' w' := by
  unfold verifyReorgRound at hround
  simp only at hround
  rcases hhash : t.db.getLastBlockHash with _ | lastBlockHash
  · rw [hhash] at hround
    cases hround
  rcases hblock : (t.db.getBlock lastBlockHash).filter fun block =>
      decide (block.h = t.db.getLastBlockHeight) with _ | block
  · simp only [hhash, hblock] at hround
    split at hround
    · cases hround
    · cases hround
      exact Or.inl rfl
  · simp only [asksNode, hhash, hblock, ite_eq_left_iff, reduceCtorEq, imp_false,
      not_not] at hasks
    obtain ⟨tip, htip, hlt⟩ := (Option.any_eq_true _ _).mp hasks
    simp only [hhash, hblock, htip, hlt, if_true] at hround
    split at hround
    · cases hround
    · exact Or.inr ⟨tip, _, _, block, htip, of_decide_eq_true hlt, hround⟩

theorem verifyReorgRound_next {t t' : Tracker} {w w' : Walk} {answers : NodeAnswers}
    (hround : t.verifyReorgRound w answers = .next t' w') : RoundNext t w answers t' w' := by
  rcases hasks : t.asksNode w with _ | ⟨height, hash⟩
  · rcases verifyReorgRound_of_not_asksNode hasks hround with
      rfl | ⟨tip, height, hash, block, htip, hlt, hback⟩
    · exact .repaired
    · rcases rollBackRound_next hback with rfl | rfl
      · exact .retried
      · exact .rolledBack (Or.inl ⟨tip, htip, hlt⟩)
  · rcases verifyReorgRound_of_asksNode hasks answers with
      ⟨hfailed, hreread⟩ | ⟨nodeHash, block, hfetched, hcompared⟩
    · rw [hreread] at hround
      cases hround
      exact .reread hfailed
    · rw [hcompared] at hround
      split_ifs at hround with hne
      rcases rollBackRound_next hround with rfl | rfl
      · exact .retried
      · exact .rolledBack (Or.inr ⟨nodeHash, hasks, hfetched, fun heq => hne heq.symm⟩)

/-- The walk's tip, once it has one, is at or above a held one. -/
def TipHeld (held : Int → Prop) (w : Walk) : Prop :=
  ∀ tip, w.tip = some tip → ∃ low, low ≤ tip ∧ held low

theorem TipHeld.mono {held held' : Int → Prop} {w : Walk} (htip : TipHeld held w)
    (himp : ∀ low, held low → held' low) : TipHeld held' w := by
  intro tip hwalk
  obtain ⟨low, hle, hlow⟩ := htip tip hwalk
  exact ⟨low, hle, himp low hlow⟩

theorem verifyReorgRound_tipHeld {t t' : Tracker} {w w' : Walk} {held : Int → Prop}
    {replies : NodeReplies} (htip : TipHeld held w)
    (hround : t.verifyReorgRound w (replies.answers network) = .next t' w') :
    TipHeld (fun low => held low ∨ replies.SettledIn network low) w' := by
  have hkept : TipHeld (fun low => held low ∨ replies.SettledIn network low) w :=
    htip.mono fun _ hlow => Or.inl hlow
  cases verifyReorgRound_next hround with
  | repaired => exact hkept
  | retried => exact hkept
  | rolledBack => exact hkept
  | reread hfailed =>
      intro tip hrefreshed
      rcases refreshWalkTip_settled network hrefreshed with ⟨current, hcurrent, hle⟩ | hsettled
      · obtain ⟨low, hlow, hheld⟩ := htip current hcurrent
        exact ⟨low, Int.le_trans hlow hle, Or.inl hheld⟩
      · exact ⟨tip, Int.le_refl tip, Or.inr hsettled⟩

theorem walkFrom_tipHeld {t t' : Tracker} {w w' : Walk} {held : Int → Prop}
    (heard : List NodeReplies) (htip : TipHeld held w)
    (hrun : t.walkFrom w (heard.map (NodeReplies.answers network)) = .next t' w') :
    TipHeld (fun low => held low ∨ ∃ replies ∈ heard, replies.SettledIn network low) w' := by
  induction heard generalizing t w held with
  | nil =>
      cases hrun
      exact htip.mono fun _ hlow => Or.inl hlow
  | cons replies rest ih =>
      simp only [List.map_cons, walkFrom] at hrun
      split at hrun
      · next t₁ w₁ hround =>
          refine (ih (verifyReorgRound_tipHeld network htip hround) hrun).mono ?_
          rintro low ((hlow | hsettled) | ⟨later, hmem, hsettled⟩)
          · exact Or.inl hlow
          · exact Or.inr ⟨replies, List.mem_cons_self, hsettled⟩
          · exact Or.inr ⟨later, List.mem_cons_of_mem _ hmem, hsettled⟩
      · next hdone => exact absurd hrun (hdone t' w')

/-- Each block that the walk takes off has a hash that differs from the one the node gave for its
height, or lies above a tip that settled before the walk or in it. -/
def DeletesOnSettledTip (t : Tracker) (nodeTipHeight : Option Int) (atEntry : Int → Prop) : Prop :=
  ∀ (heard : List NodeReplies) (replies : NodeReplies) (t₁ t₂ : Tracker) (w₁ w₂ : Walk)
    (height : Int) (hash : Hash),
    t.verifyReorg nodeTipHeight (heard.map (NodeReplies.answers network)) = .next t₁ w₁ →
    t₁.verifyReorgRound w₁ (replies.answers network) = .next t₂ w₂ →
    w₂.blocksDeleted = w₁.blocksDeleted ++ [(height, hash)] →
      (∃ nodeHash, t₁.asksNode w₁ = some (height, hash) ∧ replies.blockHash = some nodeHash ∧
        nodeHash ≠ hash) ∨
      ∃ tip, tip < height ∧
        (atEntry tip ∨ ∃ window ∈ heard, window.SettledIn network tip)

theorem deletesOnSettledTip {t : Tracker} {nodeTipHeight : Option Int} {atEntry : Int → Prop}
    (hentry : ∀ tip, nodeTipHeight = some tip → atEntry tip) :
    DeletesOnSettledTip network t nodeTipHeight atEntry := by
  intro heard replies t₁ t₂ w₁ w₂ height hash hrun hround hdeleted
  have hstart : TipHeld atEntry (t.startWalk nodeTipHeight) :=
    fun tip htip => ⟨tip, Int.le_refl tip, hentry tip htip⟩
  have hheld := walkFrom_tipHeld network heard hstart hrun
  have hnone : w₁.blocksDeleted ≠ w₁.blocksDeleted ++ [(height, hash)] := by simp
  cases verifyReorgRound_next hround with
  | repaired => exact absurd hdeleted hnone
  | retried => exact absurd hdeleted hnone
  | reread hfailed => exact absurd hdeleted hnone
  | rolledBack hwhy =>
      obtain ⟨rfl, rfl⟩ := Prod.mk.inj (List.singleton_inj.mp (List.append_cancel_left hdeleted))
      rcases hwhy with ⟨tip, htip, hlt⟩ | hasked
      · obtain ⟨low, hle, hlow⟩ := hheld tip htip
        exact Or.inr ⟨low, Int.lt_of_le_of_lt hle hlt, hlow⟩
      · exact Or.inl hasked

end Tracker

/-! ### Recovery -/

namespace SyncLoop

/-- A settled answer replaces the first one; without one nothing moves. -/
theorem settleNodeTipBelow_cases (s : SyncLoop) (ourHeight : Int)
    (rereads : List (Option BlockchainInfo)) :
    ((s.settleNodeTipBelow network ourHeight rereads).2 = false ∧
      (s.settleNodeTipBelow network ourHeight rereads).1.tracker = s.tracker) ∨
    ∃ info tip, info.blocks = some tip ∧ tip < ourHeight ∧
      settleNodeTipBelowLoop network tipSettleMaxReads s.blockchainInfoLastBlock 0 rereads =
        some info ∧
      (s.settleNodeTipBelow network ourHeight rereads).2 = true ∧
      (s.settleNodeTipBelow network ourHeight rereads).1.blockchainInfoLastBlock = some tip := by
  unfold settleNodeTipBelow
  rcases hloop : settleNodeTipBelowLoop network tipSettleMaxReads s.blockchainInfoLastBlock 0
    rereads with _ | info
  · exact Or.inl ⟨rfl, rfl⟩
  · rcases hbelow : (info.blocks.any fun tip => tip < ourHeight) with _ | _
    · exact Or.inl ⟨hbelow, rfl⟩
    · obtain ⟨tip, htip, hlt⟩ := (Option.any_eq_true _ _).mp hbelow
      exact Or.inr ⟨info, tip, htip, of_decide_eq_true hlt, rfl, hbelow, htip⟩

theorem settleForRecovery_cases (s : SyncLoop) (rereads : List (Option BlockchainInfo)) :
    (∃ s', s.settleForRecovery network rereads = .ended s' ∧ s'.tracker = s.tracker) ∨
      ∃ s' tip, s.settleForRecovery network rereads = .settled s' ∧
        s'.blockchainInfoLastBlock = some tip ∧
        SettledIn network tip s.blockchainInfoLastBlock rereads := by
  unfold settleForRecovery
  simp only
  by_cases hcatching : (s.lastBlockchainInfo.any nodeStillCatchingUp) = true
  · exact Or.inl ⟨_, if_pos hcatching, rfl⟩
  rw [if_neg hcatching]
  -- Past the catch-up wait the state differs from the first one in latches only.
  obtain ⟨entered, hentered, htracker, hlast⟩ : ∃ entered : SyncLoop,
      (if s.nodeCatchingUpProblem = true then
        { s with synced := false, nodeCatchingUpProblem := false, nodeCatchingUp := none }
      else { s with synced := false }) = entered ∧ entered.tracker = s.tracker ∧
        entered.blockchainInfoLastBlock = s.blockchainInfoLastBlock := by
    split_ifs
    · exact ⟨_, rfl, rfl, rfl⟩
    · exact ⟨_, rfl, rfl, rfl⟩
  rw [hentered]
  by_cases hrefused : entered.tipBelowCommittedTipRefused = true
  · exact Or.inl ⟨entered, if_pos hrefused, htracker⟩
  rw [if_neg hrefused]
  have hsplit := settleNodeTipBelow_cases network entered entered.tracker.lastProcessedBlockIndex
    rereads
  rcases hresult : entered.settleNodeTipBelow network entered.tracker.lastProcessedBlockIndex
    rereads with ⟨after, _ | _⟩
  · rw [hresult] at hsplit
    rcases hsplit with ⟨-, hsame⟩ | ⟨_, _, -, -, -, htrue, -⟩
    · exact Or.inl ⟨after, rfl, hsame.trans htracker⟩
    · cases htrue
  · rw [hresult] at hsplit
    rcases hsplit with ⟨hfalse, -⟩ | ⟨info, tip, htip, -, hloop, -, hafter⟩
    · cases hfalse
    · rw [hlast] at hloop
      exact Or.inr ⟨_, tip, rfl, hafter, settledIn_of_settleNodeTipBelow network htip hloop⟩

/-- A pass comes to the recovery with its own usable reading to settle, and nothing moved yet. -/
theorem refreshNodeTip_recoverFromTipBelowOurs {s s' : SyncLoop} {reply : Option BlockchainInfo}
    (hpass : s.refreshNodeTip network reply = .recoverFromTipBelowOurs s') :
    ∃ info tip, reply = some info ∧ nodeTipIsParseable info network = true ∧
      info.blocks = some tip ∧ s'.blockchainInfoLastBlock = some tip ∧
      tip < s.tracker.lastProcessedBlockIndex ∧ s'.tracker = s.tracker := by
  rcases reply with _ | info
  · cases hpass
  simp only [refreshNodeTip] at hpass
  rcases hparse : nodeTipIsParseable info network
  · simp [hparse] at hpass
  simp only [hparse, Bool.not_true, Bool.false_eq_true, if_false, reconcileRefreshedTip] at hpass
  split_ifs at hpass with hbelow hreached
  all_goals
    cases hpass
    obtain ⟨tip, htip, hlt⟩ := (Option.any_eq_true _ _).mp hbelow
    exact ⟨info, tip, rfl, hparse, htip, htip, of_decide_eq_true hlt, rfl⟩

/-- What the walk of a recovery deletes lies above a tip that settled. -/
theorem settleForRecovery_deletes {s s' : SyncLoop} {rereads : List (Option BlockchainInfo)}
    (hsettled : s.settleForRecovery network rereads = .settled s') :
    s'.enterWalk.tracker.DeletesOnSettledTip network s'.enterWalk.blockchainInfoLastBlock
      fun tip => SettledIn network tip s.blockchainInfoLastBlock rereads := by
  rcases settleForRecovery_cases network s rereads with
    ⟨_, hended, -⟩ | ⟨after, tip, hafter, htip, hheld⟩
  · rw [hended] at hsettled
    cases hsettled
  · rw [hafter] at hsettled
    cases hsettled
    refine Tracker.deletesOnSettledTip network fun entry hentry => ?_
    obtain rfl := Option.some.inj (htip.symm.trans hentry)
    exact hheld

/-- A pass deletes on its own reading, once that settled. -/
theorem refreshNodeTip_deletes {s s' s'' : SyncLoop} {reply : Option BlockchainInfo}
    {rereads : List (Option BlockchainInfo)}
    (hpass : s.refreshNodeTip network reply = .recoverFromTipBelowOurs s')
    (hsettled : s'.settleForRecovery network rereads = .settled s'') :
    ∃ info tip, reply = some info ∧ info.blocks = some tip ∧
      tip < s.tracker.lastProcessedBlockIndex ∧
      s''.enterWalk.tracker.DeletesOnSettledTip network s''.enterWalk.blockchainInfoLastBlock
        fun low => SettledIn network low (some tip) rereads := by
  obtain ⟨info, tip, hreply, -, htip, hlast, hbelow, -⟩ :=
    refreshNodeTip_recoverFromTipBelowOurs network hpass
  exact ⟨info, tip, hreply, htip, hbelow, hlast ▸ settleForRecovery_deletes network hsettled⟩

end SyncLoop

/-! ### Main result -/

/-- **Only a settled tip deletes.** A walk takes a block off on a differing hash of the node's or
below it a tip that held still for the whole window, whether the walk began without a tip or on the
sync loop's; the two settle loops accept the same integer readings; and where no tip settles, the
tracker, its cursor, batch and store, stays as it was. -/
theorem deletion_needs_settledTip :
    (∀ t : Tracker, t.DeletesOnSettledTip network none fun _ => False) ∧
    (∀ (s s' : SyncLoop) (rereads : List (Option BlockchainInfo)),
      s.settleForRecovery network rereads = .settled s' →
      s'.enterWalk.tracker.DeletesOnSettledTip network s'.enterWalk.blockchainInfoLastBlock
        fun tip => SettledIn network tip s.blockchainInfoLastBlock rereads) ∧
    (∀ (s : SyncLoop) (ourHeight first : Int) (rereads : List (Option BlockchainInfo)),
      s.blockchainInfoLastBlock = some first → IntegerReadings rereads →
      (SyncLoop.settleNodeTipBelowLoop network tipSettleMaxReads s.blockchainInfoLastBlock 0
          rereads).map BlockchainInfo.blocks =
        (settleWalkTip first (rereads.map (readWalkTip network))).map some ∧
      (s.settleNodeTipBelow network ourHeight rereads).2 =
        (settleWalkTip first (rereads.map (readWalkTip network))).any fun tip =>
          tip < ourHeight) ∧
    (∀ (s : SyncLoop) (rereads : List (Option BlockchainInfo)) (rounds : List NodeAnswers),
      (∀ tip, ¬SettledIn network tip s.blockchainInfoLastBlock rereads) →
      ∃ s', s.recoverFromTipBelowOurs network rereads rounds = .ended s' ∧
        s'.tracker = s.tracker) ∧
    (∀ (t : Tracker) (w : Tracker.Walk) (replies : NodeReplies) (height : Int) (hash : Hash),
      t.asksNode w = some (height, hash) → replies.blockHash = none →
      ∃ tip, t.verifyReorgRound w (replies.answers network) = .next t { w with tip := tip } ∧
        ((∀ settled, ¬replies.SettledIn network settled) → ∀ next, tip = some next →
          ∃ current, w.tip = some current ∧ current ≤ next)) := by
  refine ⟨fun t => ?_, ?_, ?_, ?_, ?_⟩
  · exact Tracker.deletesOnSettledTip network fun tip htip => nomatch htip
  · intro s s' rereads hsettled
    exact SyncLoop.settleForRecovery_deletes network hsettled
  · intro s ourHeight first rereads hfirst hinteger
    have hloops := settleNodeTipBelowLoop_eq_settleWalkTipLoop network tipSettleMaxReads 0 first
      hinteger
    rw [hfirst]
    refine ⟨hloops, ?_⟩
    unfold SyncLoop.settleNodeTipBelow settleWalkTip
    rw [hfirst]
    rcases hnode : SyncLoop.settleNodeTipBelowLoop network tipSettleMaxReads (some first) 0 rereads
      with _ | info
    · rw [hnode, Option.map_none] at hloops
      rw [Option.map_eq_none_iff.mp hloops.symm]
      rfl
    · rw [hnode, Option.map_some] at hloops
      obtain ⟨tip, hwalk, htip⟩ := Option.map_eq_some_iff.mp hloops.symm
      simp only [hwalk, ← htip, Option.any_some]
  · intro s rereads rounds hunsettled
    rcases SyncLoop.settleForRecovery_cases network s rereads with
      ⟨s', hended, hsame⟩ | ⟨_, tip, -, -, hheld⟩
    · refine ⟨s', ?_, hsame⟩
      simp only [SyncLoop.recoverFromTipBelowOurs, hended]
    · exact absurd hheld (hunsettled tip)
  · intro t w replies height hash hasks hfailed
    rcases Tracker.verifyReorgRound_of_asksNode hasks (replies.answers network) with
      ⟨-, hreread⟩ | ⟨nodeHash, _, hfetched, -⟩
    · refine ⟨_, hreread, fun hunsettled next hnext => ?_⟩
      rcases refreshWalkTip_settled network hnext with hraised | hsettled
      · exact hraised
      · exact absurd hsettled (hunsettled next)
    · exact absurd (hfailed.symm.trans hfetched) (by simp)

/-- The walk of a recovery at tip 0. -/
def Tracker.atZero (t : Tracker) : Tracker :=
  { t with
    lastBlocks := Tracker.loadLastBlocksSortedByHeight t.db
    blocksQuantity := 0 }

def Tracker.WalkResult.deleted : Tracker.WalkResult → List (Int × Hash)
  | .next _ w | .returned _ w | .threw _ w _ => w.blocksDeleted

def Tracker.WalkResult.goesOn : Tracker.WalkResult → Bool
  | .next _ _ => true
  | _ => false

theorem exists_twoBlockTracker : ∃ (t t' : Tracker) (w' : Tracker.Walk),
    t.lastProcessedBlockIndex = 1 ∧ t.blocksQuantity = 0 ∧
    t.atZero.verifyReorgRound (t.atZero.startWalk (some 0)) ⟨none, [], true⟩ = .next t' w' ∧
    w'.blocksDeleted = [(1, spendingBlock.hash)] := by
  obtain ⟨t, ht⟩ : ∃ t, twoBlockTracker 5 = some t := Option.isSome_iff_exists.mp (by decide +kernel)
  have hcursor : (twoBlockTracker 5).map (fun t => (t.lastProcessedBlockIndex, t.blocksQuantity)) =
      some (1, 0) := by decide +kernel
  have hround : (twoBlockTracker 5).map (fun t =>
      let result := t.atZero.verifyReorgRound (t.atZero.startWalk (some 0)) ⟨none, [], true⟩
      (result.goesOn, result.deleted)) = some (true, [(1, spendingBlock.hash)]) := by decide +kernel
  simp only [ht, Option.map_some, Option.some.injEq, Prod.mk.injEq] at hcursor hround
  obtain ⟨hnext, hdeleted⟩ := hround
  cases hresult : t.atZero.verifyReorgRound (t.atZero.startWalk (some 0)) ⟨none, [], true⟩ with
  | next t' w' =>
      rw [hresult] at hdeleted
      exact ⟨t, t', w', hcursor.1, hcursor.2, hresult, hdeleted⟩
  | returned t' w' =>
      rw [hresult] at hnext
      cases hnext
  | threw t' w' error =>
      rw [hresult] at hnext
      cases hnext

/-- A loop on a tracker, before its first reading. -/
def freshLoop (t : Tracker) : SyncLoop :=
  { tracker := t
    lastBlockchainInfo := none
    latestKnownChainTip := none
    blockchainInfoLastBlock := none
    synced := true
    mempoolReconverged := true
    nodeCatchingUp := none
    nodeSyncedProblem := false
    nodeCatchingUpProblem := false
    tipBelowCommittedTipRefused := false }

/-- The node at this height, past its initial download. -/
def usableInfo (tip : Int) : Option BlockchainInfo := some ⟨some tip, none, false⟩

/-- A pass reads tip 0 under two committed blocks, the tip settles there, and the second block goes.
-/
theorem deletion_needs_settledTip_twoBlocks : ∃ (s s₁ s₂ : SyncLoop) (t' : Tracker)
    (w' : Tracker.Walk),
    s.refreshNodeTip .mainnet (usableInfo 0) = .recoverFromTipBelowOurs s₁ ∧
    s₁.settleForRecovery .mainnet (List.replicate 5 (usableInfo 0)) = .settled s₂ ∧
    s₂.enterWalk.tracker.verifyReorgRound
      (s₂.enterWalk.tracker.startWalk s₂.enterWalk.blockchainInfoLastBlock) ⟨none, [], true⟩ =
        .next t' w' ∧
    w'.blocksDeleted = [(1, spendingBlock.hash)] ∧
    (∃ tip < 1, SettledIn .mainnet tip s₁.blockchainInfoLastBlock
      (List.replicate 5 (usableInfo 0))) ∧
    ∃ s₃, s₁.recoverFromTipBelowOurs .mainnet (List.replicate 4 (usableInfo 0)) [] = .ended s₃ ∧
      s₃.tracker = s₁.tracker := by
  obtain ⟨t, t', w', hindex, hquantity, hround, hdeleted⟩ := exists_twoBlockTracker
  obtain ⟨-, hwalks, -, hunsettled, -⟩ := deletion_needs_settledTip .mainnet
  have hpass : (freshLoop t).refreshNodeTip .mainnet (usableInfo 0) =
      .recoverFromTipBelowOurs { freshLoop t with
        lastBlockchainInfo := usableInfo 0
        latestKnownChainTip := some 0
        blockchainInfoLastBlock := some 0 } := by
    simp [SyncLoop.refreshNodeTip, SyncLoop.reconcileRefreshedTip, usableInfo, nodeTipIsParseable,
      freshLoop, hindex]
  have hsettled : SyncLoop.settleForRecovery .mainnet { freshLoop t with
        lastBlockchainInfo := usableInfo 0
        latestKnownChainTip := some 0
        blockchainInfoLastBlock := some 0 } (List.replicate 5 (usableInfo 0)) =
      .settled { freshLoop t with
        tracker := { t with blocksQuantity := 0 }
        lastBlockchainInfo := some ⟨some 0, none, false⟩
        latestKnownChainTip := some 0
        blockchainInfoLastBlock := some 0
        synced := false } := by
    have hloop : SyncLoop.settleNodeTipBelowLoop .mainnet tipSettleMaxReads (some 0) 0
        (List.replicate 5 (usableInfo 0)) = some ⟨some 0, none, false⟩ := rfl
    have hcaught : (usableInfo 0).any nodeStillCatchingUp = false := rfl
    simp only [SyncLoop.settleForRecovery, SyncLoop.settleNodeTipBelow, hloop, hcaught, freshLoop,
      hindex, Bool.false_eq_true, if_false, Option.any_some]
    simp [Tracker.discardInflightBatchForReorg, hquantity, hindex]
  have hdeletes := hwalks _ _ _ hsettled [] ⟨none, [], true⟩ _ t' _ w' 1 spendingBlock.hash rfl
    hround hdeleted
  obtain ⟨_, -, hnone, -⟩ | ⟨tip, hlt, hheld | ⟨_, hmem, -⟩⟩ := hdeletes
  · cases hnone
  · refine ⟨_, _, _, t', w', hpass, hsettled, hround, hdeleted, ⟨tip, hlt, hheld⟩,
      hunsettled _ _ _ fun settled hsettled => ?_⟩
    have hlength : 6 ≤ 5 := hsettled.length_le
    omega
  · cases hmem

end UtxoTracker

import UtxoTracker.Proof.Walk
/-!
# A whole walk

What `verifyReorg` leaves behind after any sequence of answers: the newest blocks of the chain are
gone, and so are the coins that no recovery record brought back.
-/

namespace UtxoTracker

open KeyedStore LevelUpStore Provenance Tracker

/-! ### Rolling several blocks back -/

/-- After rolling back the newest `n` blocks. -/
def Provenance.unwindN : Provenance → Chain → Nat → Provenance
  | p, _, 0 => p
  | p, [], _ + 1 => p
  | p, b :: rest, n + 1 => (p.unwind b rest).unwindN rest n

@[simp] theorem Provenance.unwindN_zero (p : Provenance) (chain : Chain) :
    p.unwindN chain 0 = p := by
  cases chain <;> rfl

@[simp] theorem Provenance.unwindN_succ (p : Provenance) (b : Block) (rest : Chain) (n : Nat) :
    p.unwindN (b :: rest) (n + 1) = (p.unwind b rest).unwindN rest n := rfl

/-- A bulk-seeded block spends the output, and the chain keeps only the blocks below it. -/
def Provenance.SpentBySeeded (p : Provenance) (chain : Chain) (kept : Nat) (o : OutPoint) : Prop :=
  ∃ b rest, b :: rest <:+ chain ∧ kept ≤ rest.length ∧ rest.length < p.seeded ∧ o ∈ b.spent

/-- Rolling back the newest `n` blocks leaves no coin missing: none is missing already, and none is
spent by a bulk-seeded block among them. -/
def Provenance.Restorable (p : Provenance) (chain : Chain) (n : Nat) : Prop :=
  ∀ o, (utxo (chain.drop n) o).isSome →
    o ∉ p.lost ∧ ¬ p.SpentBySeeded chain (chain.drop n).length o

/-- The `O` and `H` records are the unspent outputs of the chain. -/
def CoinsExact (db : Db) (chain : Chain) : Prop :=
  ∀ txid idx, db[Key.outHint txid idx]? = hintValue (utxo chain ⟨txid, idx⟩) ∧
    ∀ script, db[Key.output script txid idx]? = outputValue script (utxo chain ⟨txid, idx⟩)

section Unwind

variable {p : Provenance} {chain rest : Chain} {b : Block} {n : Nat} {o : OutPoint}

theorem everCreated_of_suffix {below : Chain} (hvalid : ValidChain chain) (hsuffix : below <:+ chain)
    {out : NewOutput} (hout : everCreated below o = some out) : everCreated chain o = some out := by
  induction chain with
  | nil =>
      rw [List.suffix_nil.mp hsuffix] at hout
      cases hout
  | cons b rest ih =>
      rcases List.suffix_cons_iff.mp hsuffix with rfl | hrest
      · exact hout
      · have hrest' := ih hvalid.2 hrest
        have hnone : b.created rest.length o = none := by
          by_contra hcreated
          rw [hvalid.1.fresh (Option.isSome_iff_ne_none.mpr hcreated)] at hrest'
          cases hrest'
        rw [everCreated_cons, hnone, Option.none_or, hrest']

theorem spentBySeeded_cons {kept : Nat} :
    p.SpentBySeeded (b :: rest) kept o ↔
      (kept ≤ rest.length ∧ rest.length < p.seeded ∧ o ∈ b.spent) ∨
        (p.unwind b rest).SpentBySeeded rest kept o := by
  constructor
  · rintro ⟨c, below, hsuffix, hkept, hseeded, hspent⟩
    rcases List.suffix_cons_iff.mp hsuffix with heq | hrest
    · obtain ⟨rfl, rfl⟩ := List.cons.inj heq
      exact Or.inl ⟨hkept, hseeded, hspent⟩
    · have hlength := hrest.length_le
      rw [List.length_cons] at hlength
      exact Or.inr ⟨c, below, hrest, hkept, lt_min hseeded hlength, hspent⟩
  · rintro (⟨hkept, hseeded, hspent⟩ | ⟨c, below, hrest, hkept, hseeded, hspent⟩)
    · exact ⟨b, rest, List.suffix_rfl, hkept, hseeded, hspent⟩
    · exact ⟨c, below, hrest.trans (List.suffix_cons b rest), hkept,
        hseeded.trans_le (Nat.min_le_left _ _), hspent⟩

/-- The coins lost are the ones the kept chain created and a seeded block that went had spent. -/
theorem mem_unwindN_lost (hvalid : ValidChain chain)
    (hfits : ∀ o ∈ p.lost, (everCreated chain o).isSome) (hn : n ≤ chain.length) :
    o ∈ (p.unwindN chain n).lost ↔ (everCreated (chain.drop n) o).isSome ∧
      (o ∈ p.lost ∨ p.SpentBySeeded chain (chain.drop n).length o) := by
  induction n generalizing chain p with
  | zero =>
      have hnone : ¬ p.SpentBySeeded chain chain.length o := by
        rintro ⟨c, below, hsuffix, hkept, -, -⟩
        have hlength := hsuffix.length_le
        rw [List.length_cons] at hlength
        omega
      simp only [unwindN_zero, List.drop_zero, hnone, or_false]
      exact ⟨fun hlost => ⟨hfits o hlost, hlost⟩, fun h => h.2⟩
  | succ n ih =>
      obtain ⟨b, rest, rfl⟩ : ∃ b rest, chain = b :: rest :=
        List.exists_cons_of_length_pos (Nat.lt_of_lt_of_le (Nat.succ_pos n) hn)
      have hn' : n ≤ rest.length := Nat.le_of_succ_le_succ hn
      have hfits' : ∀ o ∈ (p.unwind b rest).lost, (everCreated rest o).isSome := by
        intro o hlost
        obtain ⟨hor, hcreated⟩ := mem_unwind_lost.mp hlost
        rcases hor with hlost | ⟨-, hspent⟩
        · have hever := hfits o hlost
          rwa [everCreated_cons, hcreated, Option.none_or] at hever
        · have hsome := (hvalid.1.spendable o hspent).resolve_left (by simp [hcreated])
          obtain ⟨out, hout⟩ := Option.isSome_iff_exists.mp hsome
          simp [everCreated_of_utxo hout]
      rw [unwindN_succ, List.drop_succ_cons, ih hvalid.2 hfits' hn', spentBySeeded_cons]
      refine and_congr_right fun hever => ?_
      -- What the kept chain created the block did not.
      have hcreated : b.created rest.length o = none := by
        obtain ⟨out, hout⟩ := Option.isSome_iff_exists.mp hever
        have hrest := everCreated_of_suffix hvalid.2 (List.drop_suffix n rest) hout
        by_contra hcreated
        rw [hvalid.1.fresh (Option.isSome_iff_ne_none.mpr hcreated)] at hrest
        cases hrest
      have hkept : (rest.drop n).length ≤ rest.length := by simp
      rw [mem_unwind_lost]
      tauto

/-- A store's coins are exact when none that the chain leaves unspent is missing. -/
theorem Durable.coinsExact_iff {depth : Nat} {db : Db} (hdurable : Durable p chain depth db) :
    CoinsExact db chain ↔ ∀ o, (utxo chain o).isSome → o ∉ p.lost := by
  constructor
  · intro hexact o hsome hlost
    obtain ⟨out, hout⟩ := Option.isSome_iff_exists.mp hsome
    have hhint := (hexact o.txid o.index).1
    rw [hdurable.indexes _ rfl, record, coins, if_pos hlost, hout] at hhint
    cases hhint
  · intro hnone txid idx
    have hcoins : p.coins chain ⟨txid, idx⟩ = utxo chain ⟨txid, idx⟩ := by
      unfold coins
      split
      · next hlost =>
          by_contra hne
          exact hnone _ (Option.isSome_iff_ne_none.mpr (Ne.symm hne)) hlost
      · rfl
    refine ⟨?_, fun script => ?_⟩
    · rw [hdurable.indexes _ rfl, record, hcoins]
    · rw [hdurable.indexes _ rfl, record, hcoins]

theorem Provenance.Fits.lost_isSome {window : List Hash} (hfits : p.Fits chain window) :
    ∀ o ∈ p.lost, (everCreated chain o).isSome := by
  intro o hlost
  obtain ⟨out, hout, -⟩ := hfits.lost_created o hlost
  simp [hout]

/-- **Exactly the restorable rollbacks** leave the coins exact. -/
theorem Durable.coinsExact_unwindN_iff {depth left : Nat} {db db' : Db}
    (hdurable : Durable p chain depth db) (hn : n ≤ chain.length)
    (hdurable' : Durable (p.unwindN chain n) (chain.drop n) left db') :
    CoinsExact db' (chain.drop n) ↔ p.Restorable chain n := by
  rw [hdurable'.coinsExact_iff]
  refine forall_congr' fun o => imp_congr_right fun hsome => ?_
  have hever : (everCreated (chain.drop n) o).isSome := by
    obtain ⟨out, hout⟩ := Option.isSome_iff_exists.mp hsome
    simp [everCreated_of_utxo hout]
  rw [mem_unwindN_lost hdurable.valid hdurable.fits.lost_isSome hn]
  tauto

end Unwind

/-! ### The node's readings -/

theorem settleWalkTipLoop_mem {reads stableReads : Nat} {previous tip : Int}
    {readings : List (Option Int)}
    (hsettled : settleWalkTipLoop reads previous stableReads readings = some tip) :
    tip = previous ∨ some tip ∈ readings := by
  induction reads generalizing previous stableReads readings with
  | zero => cases hsettled
  | succ reads ih =>
      unfold settleWalkTipLoop at hsettled
      split at hsettled
      · next reading rest =>
          split_ifs at hsettled with heq hstable
          · exact Or.inl (heq ▸ (Option.some.inj hsettled).symm)
          · exact (ih hsettled).imp_right (List.mem_cons_of_mem _)
          · refine Or.inr ?_
            rcases ih hsettled with rfl | hmem
            · exact List.mem_cons_self
            · exact List.mem_cons_of_mem _ hmem
      · cases hsettled

/-- The walk's tip is one that the node gave. -/
theorem refreshWalkTip_mem {currentTip : Option Int} {readings : List (Option Int)} {tip : Int}
    (hrefreshed : refreshWalkTip currentTip readings = some tip) :
    currentTip = some tip ∨ some tip ∈ readings := by
  unfold refreshWalkTip at hrefreshed
  split at hrefreshed
  · next reading rest =>
      dsimp only at hrefreshed
      split_ifs at hrefreshed
      · cases hsettled : settleWalkTip reading rest with
        | none =>
            rw [hsettled] at hrefreshed
            exact Or.inl hrefreshed
        | some next =>
            rw [hsettled] at hrefreshed
            obtain rfl := Option.some.inj hrefreshed
            refine Or.inr ?_
            rcases settleWalkTipLoop_mem hsettled with rfl | hmem
            · exact List.mem_cons_self
            · exact List.mem_cons_of_mem _ hmem
      · obtain rfl := Option.some.inj hrefreshed
        exact Or.inr List.mem_cons_self
  · exact Or.inl hrefreshed

/-- The tip height of a node whose block hashes, by height, are `node`. -/
def nodeTip (node : List Hash) : Int := node.length - 1

def nodeHash (node : List Hash) (height : Int) : Option Hash :=
  if height < 0 then none else node[height.toNat]?

/-- The answers of a node that serves one chain during the walk, some of its fetches failing. -/
def Presented (node : List Hash) (t : Tracker) (w : Walk) : List NodeAnswers → Prop
  | [] => True
  | answers :: rest =>
      (answers.blockHash = none ∨ answers.blockHash = nodeHash node t.db.getLastBlockHeight) ∧
        (∀ tip, some tip ∈ answers.tips → tip = nodeTip node) ∧
        ∀ t' w', t.verifyReorgRound w answers = .next t' w' → Presented node t' w' rest

/-- The part of our chain up to the newest block that the node has at the same height. -/
def sharedWith (node : List Hash) : Chain → Chain
  | [] => []
  | b :: rest => if node[rest.length]? = some b.hash then b :: rest else sharedWith node rest

/-- A walk is given up only on blocks the node does not have. -/
theorem Refuted.not_shared {node : List Hash} {w : Walk} {answers : NodeAnswers} {b : Block}
    {rest : Chain} (hrefuted : Refuted w answers b rest)
    (htip : ∀ tip, w.tip = some tip → tip = nodeTip node)
    (hanswer : answers.blockHash = none ∨ answers.blockHash = nodeHash node rest.length) :
    node[rest.length]? ≠ some b.hash := by
  rcases hrefuted with ⟨tip, hknown, hbelow⟩ | ⟨hash, hgiven, hdiffers⟩
  · rw [htip tip hknown, nodeTip] at hbelow
    rw [List.getElem?_eq_none (by omega)]
    exact (Option.some_ne_none _).symm
  · rcases hanswer with hnone | hnode
    · rw [hnone] at hgiven
      cases hgiven
    · rw [hgiven, nodeHash, if_neg (by omega), Int.toNat_natCast] at hnode
      rw [← hnode]
      exact fun heq => hdiffers (Option.some.inj heq).symm

/-! ### The run lemma -/

namespace Tracker.WalkResult

def tracker : WalkResult → Tracker
  | .next t _ | .returned t _ | .threw t _ _ => t

def walk : WalkResult → Walk
  | .next _ w | .returned _ w | .threw _ w _ => w

end Tracker.WalkResult

/-- Where a walk stands that has rolled back the newest `n` blocks. -/
structure WalkedBack (p : Provenance) (chain : Chain) (depth : Nat) (t : Tracker) (w : Walk) (n : Nat)
    (t' : Tracker) (w' : Walk) : Prop where
  le : n ≤ depth
  durable : Durable (p.unwindN chain n) (chain.drop n) (depth - n) t'.db.db
  last : t'.lastBlocks = (windowOf (chain.drop n) (depth - n)).reverse
  undoBlocks : t'.undoBlocks = t.undoBlocks
  deleted : w'.blocksDeleted.length = w.blocksDeleted.length + n
  window : w'.undoWindow = w.undoWindow
  walk : WalkInv w' t'.undoBlocks (depth - n)

/-- What a whole walk can do. -/
structure WalkOutcome (p : Provenance) (chain : Chain) (depth : Nat) (t : Tracker) (w : Walk)
    (answers : List NodeAnswers) (n : Nat) (result : WalkResult) : Prop where
  walked : WalkedBack p chain depth t w n result.tracker result.walk
  /-- It returns on a tip that the node has. -/
  agreed : ∀ t' w', result = .returned t' w' →
    ∃ b rest, chain.drop n = b :: rest ∧ ∃ a ∈ answers, a.blockHash = some b.hash
  /-- With one chain presented it gives up no block the node has, and returns on the newest one the
  node has. -/
  shared : ∀ node, Presented node t w answers → (∀ tip, w.tip = some tip → tip = nodeTip node) →
    sharedWith node (chain.drop n) = sharedWith node chain ∧
      ∀ t' w', result = .returned t' w' → sharedWith node (chain.drop n) = chain.drop n

theorem walkFrom_next {t t₁ : Tracker} {w w₁ : Walk} {a : NodeAnswers} {rest : List NodeAnswers}
    (hround : t.verifyReorgRound w a = .next t₁ w₁) :
    t.walkFrom w (a :: rest) = t₁.walkFrom w₁ rest := by
  simp only [walkFrom, hround]

theorem walkFrom_returned {t t₁ : Tracker} {w w₁ : Walk} {a : NodeAnswers} {rest : List NodeAnswers}
    (hround : t.verifyReorgRound w a = .returned t₁ w₁) :
    t.walkFrom w (a :: rest) = .returned t₁ w₁ := by
  simp only [walkFrom, hround]

theorem walkFrom_threw {t t₁ : Tracker} {w w₁ : Walk} {a : NodeAnswers} {rest : List NodeAnswers}
    {error : ReorgError} (hround : t.verifyReorgRound w a = .threw t₁ w₁ error) :
    t.walkFrom w (a :: rest) = .threw t₁ w₁ error := by
  simp only [walkFrom, hround]

theorem recordReorg_db (t : Tracker) (w : Walk) : (t.recordReorg w).db = t.db := by
  unfold recordReorg
  split <;> rfl

theorem recordReorg_lastBlocks (t : Tracker) (w : Walk) :
    (t.recordReorg w).lastBlocks = t.lastBlocks := by
  unfold recordReorg
  split <;> rfl

theorem recordReorg_undoBlocks (t : Tracker) (w : Walk) :
    (t.recordReorg w).undoBlocks = t.undoBlocks := by
  unfold recordReorg
  split <;> rfl

section Run

variable {p : Provenance} {chain : Chain} {depth : Nat} {t : Tracker} {w : Walk}

/-- A walk that has deleted nothing yet. -/
theorem WalkedBack.none (hdurable : Durable p chain depth t.db.db)
    (hlast : t.lastBlocks = (windowOf chain depth).reverse)
    (hwalk : WalkInv w t.undoBlocks depth) {t' : Tracker} {w' : Walk} (hdb : t'.db.db = t.db.db)
    (hlast' : t'.lastBlocks = t.lastBlocks) (hundo : t'.undoBlocks = t.undoBlocks)
    (hdeleted : w'.blocksDeleted = w.blocksDeleted) (hwindow : w'.undoWindow = w.undoWindow) :
    WalkedBack p chain depth t w 0 t' w' where
  le := Nat.zero_le _
  durable := by
    rw [hdb, unwindN_zero]
    exact hdurable
  last := hlast'.trans hlast
  undoBlocks := hundo
  deleted := by rw [hdeleted, Nat.add_zero]
  window := hwindow
  walk := by
    refine ⟨?_, ?_, ?_⟩
    · rw [hdeleted, hwindow]
      exact hwalk.spent
    · rw [hwindow, hundo]
      exact hwalk.budget
    · rw [hdeleted, hwindow]
      exact hwalk.within

/-- One block deleted, then the rest of the walk. -/
theorem WalkedBack.cons {b : Block} {rest : Chain} {left n : Nat} {t₁ t' : Tracker} {w₁ w' : Walk}
    (hwalked : WalkedBack (p.unwind b rest) rest left t₁ w₁ n t' w')
    (hundo : t₁.undoBlocks = t.undoBlocks)
    (hdeleted : w₁.blocksDeleted.length = w.blocksDeleted.length + 1)
    (hwindow : w₁.undoWindow = w.undoWindow) :
    WalkedBack p (b :: rest) (left + 1) t w (n + 1) t' w' where
  le := Nat.succ_le_succ hwalked.le
  durable := by
    rw [List.drop_succ_cons, Nat.add_sub_add_right]
    exact hwalked.durable
  last := by
    rw [List.drop_succ_cons, Nat.add_sub_add_right]
    exact hwalked.last
  undoBlocks := hwalked.undoBlocks.trans hundo
  deleted := by
    rw [hwalked.deleted, hdeleted]
    omega
  window := hwalked.window.trans hwindow
  walk := by
    rw [Nat.add_sub_add_right]
    exact hwalked.walk

/-- A round again at the same tip. -/
theorem WalkedBack.congr {n : Nat} {t₁ t' : Tracker} {w₁ w' : Walk}
    (hwalked : WalkedBack p chain depth t₁ w₁ n t' w') (hundo : t₁.undoBlocks = t.undoBlocks)
    (hdeleted : w₁.blocksDeleted = w.blocksDeleted) (hwindow : w₁.undoWindow = w.undoWindow) :
    WalkedBack p chain depth t w n t' w' :=
  { hwalked with
    undoBlocks := hwalked.undoBlocks.trans hundo
    deleted := by rw [hwalked.deleted, hdeleted]
    window := hwalked.window.trans hwindow }

/-- **A whole walk**, whatever it hears. -/
theorem walkFrom_spec (hdurable : Durable p chain depth t.db.db)
    (hlast : t.lastBlocks = (windowOf chain depth).reverse)
    (hwalk : WalkInv w t.undoBlocks depth) (answers : List NodeAnswers) :
    ∃ n, WalkOutcome p chain depth t w answers n (t.walkFrom w answers) := by
  induction answers generalizing p chain depth t w with
  | nil =>
      exact ⟨0, .none hdurable hlast hwalk rfl rfl rfl rfl rfl, by simp [walkFrom],
        fun _ _ _ => ⟨rfl, by simp [walkFrom]⟩⟩
  | cons a rest ih =>
      have hround := verifyReorgRound_cases a hdurable hlast hwalk
      cases hresult : t.verifyReorgRound w a with
      | next t₁ w₁ =>
          rw [walkFrom_next hresult]
          rw [hresult] at hround
          cases hround with
          | @again σ' _ hsame hwhy htip hdeleted hwindow =>
              have hdurable' : Durable p chain depth σ'.db := by
                rw [hsame.db]
                exact hdurable
              have hstay : WalkedBack p chain depth t w 0 { t with db := σ' } w₁ :=
                WalkedBack.none hdurable hlast hwalk hsame.db rfl rfl hdeleted hwindow
              obtain ⟨n, houtcome⟩ := ih (t := { t with db := σ' }) (w := w₁) hdurable' hlast
                (by simpa using hstay.walk)
              refine ⟨n, houtcome.walked.congr rfl hdeleted hwindow, fun t' w' hreturned => ?_,
                fun node hpresented hknown => ?_⟩
              · obtain ⟨b, below, hdrop, a', hmem, hanswer⟩ := houtcome.agreed t' w' hreturned
                exact ⟨b, below, hdrop, a', List.mem_cons_of_mem _ hmem, hanswer⟩
              · obtain ⟨-, htips, hnext⟩ := hpresented
                refine houtcome.shared node (hnext _ _ hresult) fun tip hsome => ?_
                rcases htip with hsame | hrefreshed
                · exact hknown tip (hsame ▸ hsome)
                · rw [hrefreshed] at hsome
                  exact (refreshWalkTip_mem hsome).elim (hknown tip) (htips tip)
          | @rolledBack b below left σ' _ hchain hdepth hroom hwhy htip hrolled hdeleted hwindow =>
              subst hchain hdepth
              have hlength : w₁.blocksDeleted.length = w.blocksDeleted.length + 1 := by
                rw [hdeleted, List.length_append, List.length_singleton]
              have hspent := hwalk.spent
              have hheight := hdurable.getLastBlockHeight
              obtain ⟨n, houtcome⟩ := ih
                (t := { t with
                  db := σ'
                  lastBlocks := (windowOf below left).reverse
                  reorgRollbacksThisProcess := t.reorgRollbacksThisProcess + 1 })
                (w := w₁) hrolled.durable rfl
                ⟨by rw [hlength, hwindow]; omega, by rw [hwindow]; exact hwalk.budget,
                  by rw [hlength, hwindow]; omega⟩
              refine ⟨n + 1, houtcome.walked.cons rfl hlength hwindow, fun t' w' hreturned => ?_,
                fun node hpresented hknown => ?_⟩
              · obtain ⟨b', below', hdrop, a', hmem, hanswer⟩ := houtcome.agreed t' w' hreturned
                exact ⟨b', below', hdrop, a', List.mem_cons_of_mem _ hmem, hanswer⟩
              · obtain ⟨hanswer, htips, hnext⟩ := hpresented
                have hindex : t.db.getLastBlockHeight = below.length := by
                  rw [hheight, List.length_cons]
                  omega
                rw [hindex] at hanswer
                have hnot := hwhy.not_shared hknown hanswer
                rw [sharedWith, if_neg hnot]
                exact houtcome.shared node (hnext _ _ hresult) fun tip hsome =>
                  hknown tip (htip ▸ hsome)
      | returned t₁ w₁ =>
          rw [walkFrom_returned hresult]
          rw [hresult] at hround
          cases hround with
          | @agreed b below hchain hanswer =>
              subst hchain
              refine ⟨0, .none hdurable hlast hwalk ?_ ?_ ?_ rfl rfl, fun t' w' _ =>
                ⟨b, below, rfl, a, List.mem_cons_self, hanswer⟩, fun node hpresented _ =>
                ⟨rfl, fun t' w' _ => ?_⟩⟩
              · exact congrArg LevelUpStore.db (recordReorg_db t w)
              · exact recordReorg_lastBlocks t w
              · exact recordReorg_undoBlocks t w
              · have hnode := hpresented.1.resolve_left (by rw [hanswer]; exact Option.some_ne_none _)
                have hindex : t.db.getLastBlockHeight = below.length := by
                  rw [hdurable.getLastBlockHeight, List.length_cons]
                  omega
                rw [hanswer, hindex, nodeHash, if_neg (by omega), Int.toNat_natCast] at hnode
                rw [List.drop_zero, sharedWith, if_pos hnode.symm]
      | threw t₁ w₁ error =>
          rw [walkFrom_threw hresult]
          rw [hresult] at hround
          cases hround with
          | threw hsame =>
              exact ⟨0, .none hdurable hlast hwalk hsame.db rfl rfl rfl rfl, by simp,
                fun _ _ _ => ⟨rfl, by simp⟩⟩

/-! ### Progress -/

/-- A round that knows no tip compares the committed block with the node's. -/
theorem Durable.verifyReorgRound_compares {b : Block} {rest : Chain} {answers : NodeAnswers}
    {hash : Hash} (hdurable : Durable p (b :: rest) depth t.db.db) (htip : w.tip = none)
    (hanswer : answers.blockHash = some hash) :
    t.verifyReorgRound w answers =
      if b.hash ≠ hash then t.rollBackRound w answers rest.length b.hash (tipRecord b rest)
      else .returned (t.recordReorg w) w := by
  have hindex : t.db.getLastBlockHeight = rest.length := by
    rw [hdurable.getLastBlockHeight]
    simp
  have hblock : t.db.getBlock b.hash = some (tipRecord b rest) := hdurable.getBlock_tip
  have hfilter : (some (tipRecord b rest)).filter
      (fun block => decide (block.h = (rest.length : Int))) = some (tipRecord b rest) := by
    simp [tipRecord]
  unfold verifyReorgRound
  simp only [hindex, hdurable.getLastBlockHash, hblock, hfilter, htip,
    refuseAboveTipWalkPastBudget, Bool.false_eq_true, false_and, if_false, hanswer]

/-- The walk ends at once on a tip that the node has too. -/
theorem Durable.verifyReorgRound_agreed {b : Block} {rest : Chain}
    (hdurable : Durable p (b :: rest) depth t.db.db) (answers : NodeAnswers) (htip : w.tip = none)
    (hanswer : answers.blockHash = some b.hash) :
    t.verifyReorgRound w answers = .returned (t.recordReorg w) w := by
  rw [hdurable.verifyReorgRound_compares htip hanswer]
  exact if_neg (not_not.mpr rfl)

/-- A budget that is spent refuses the next tip the node replaced. -/
theorem Durable.verifyReorgRound_exhausted {b : Block} {rest : Chain} {hash : Hash}
    (hdurable : Durable p (b :: rest) depth t.db.db) (answers : NodeAnswers) (htip : w.tip = none)
    (hanswer : answers.blockHash = some hash) (hdiffers : b.hash ≠ hash)
    (hspent : w.undoWindow.budget ≤ w.blocksDeleted.length) :
    ∃ error, t.verifyReorgRound w answers = .threw t w error := by
  rw [hdurable.verifyReorgRound_compares htip hanswer, if_pos hdiffers, rollBackRound,
    refuseRollbackPastWindow, if_pos (Or.inr hspent)]
  exact ⟨_, rfl⟩

/-- **Progress**: a tip that the node replaced goes, with room in the budget and a commit that
reaches the disk. -/
theorem verifyReorgRound_rollsBack {b : Block} {rest : Chain} {answers : NodeAnswers} {hash : Hash}
    (hdurable : Durable p (b :: rest) depth t.db.db)
    (hlast : t.lastBlocks = (windowOf (b :: rest) depth).reverse)
    (hwalk : WalkInv w t.undoBlocks depth)
    (hroom : w.blocksDeleted.length < w.undoWindow.budget) (htip : w.tip = none)
    (hanswer : answers.blockHash = some hash) (hdiffers : b.hash ≠ hash)
    (hcommits : answers.commits = true) :
    ∃ t' w', t.verifyReorgRound w answers = .next t' w' ∧
      w'.blocksDeleted = w.blocksDeleted ++ [((rest.length : Int), b.hash)] ∧ w'.tip = none ∧
        t'.undoBlocks = t.undoBlocks := by
  have hspent := hwalk.spent
  have hbudget := hwalk.budget
  obtain ⟨left, rfl⟩ : ∃ left, depth = left + 1 := ⟨depth - 1, by omega⟩
  obtain ⟨σ', hrun, -⟩ := hdurable.rollBackTipBlock hlast w.retryCount
  have hopen : ¬ (w.undoWindow.windowAtEntry = 0 ∨
      w.undoWindow.budget ≤ w.blocksDeleted.length) := by omega
  refine ⟨{ t with
    db := σ'
    lastBlocks := (windowOf rest left).reverse
    reorgRollbacksThisProcess := t.reorgRollbacksThisProcess + 1 }, { w with
    retryCount := 0
    blocksDeleted := w.blocksDeleted ++ [((rest.length : Int), b.hash)] }, ?_, rfl, htip, rfl⟩
  rw [hdurable.verifyReorgRound_compares htip hanswer, if_pos hdiffers, rollBackRound,
    refuseRollbackPastWindow, if_neg hopen, hcommits]
  simp only [hrun]

theorem startWalk_budget (t : Tracker) (nodeTipHeight : Option Int) :
    (t.startWalk nodeTipHeight).undoWindow.budget = min t.lastBlocks.length t.undoBlocks := by
  simp only [startWalk, rollbackBudget]
  split_ifs <;> omega

end Run

end UtxoTracker

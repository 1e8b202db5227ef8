import UtxoTracker.Safety.SeedDepth
/-!
# The safety of `verifyReorg`

What each round of a walk does to the window and the store, under any node and any disk, what a whole
walk and a run of walks without forward sync give up, and what the coins of a bulk-seeded store are
once a walk has returned.
-/

namespace UtxoTracker

open KeyedStore LevelUpStore Provenance Tracker Bulk

/-! ### One round -/

/-- What a round keeps, whatever the node answers and whether or not its commit succeeds. -/
structure SafeRound (t : Tracker) (w : Walk) (a : NodeAnswers) : Prop where
  /-- A round that goes on deleted nothing, or the last block of the window. -/
  deletes : ∀ t' w', t.verifyReorgRound w a = .next t' w' →
    w'.blocksDeleted = w.blocksDeleted ∧ t'.db.db = t.db.db ∧ t'.lastBlocks = t.lastBlocks ∨
      ∃ hash, t.lastBlocks.getLast? = some hash ∧ t.db.getLastBlockHash = some hash ∧
        w'.blocksDeleted = w.blocksDeleted ++ [(t.db.getLastBlockHeight, hash)] ∧
          t'.lastBlocks = t.lastBlocks.dropLast ∧ t'.db.getBlock hash = none
  /-- A known tip too far below is refused before the next deletion. -/
  refuses : ∀ tip, w.tip = some tip → tip < t.db.getLastBlockHeight →
    (w.undoWindow.budget : Int) < w.blocksDeleted.length + (t.db.getLastBlockHeight - tip) →
      ∃ error, t.verifyReorgRound w a = .threw t w error
  /-- A round that returns does so on the hash the node gave for the committed height. -/
  returns : ∀ t' w', t.verifyReorgRound w a = .returned t' w' → t'.db = t.db ∧
    ∃ hash, t.db.getLastBlockHash = some hash ∧ a.blockHash = some hash
  /-- A round that throws leaves the store and the window. -/
  throws : ∀ t' w' error, t.verifyReorgRound w a = .threw t' w' error →
    t'.db.db = t.db.db ∧ t'.lastBlocks = t.lastBlocks

section Walk

variable {p : Provenance} {chain : Chain} {depth : Nat} {t : Tracker} {w : Walk}

theorem Durable.safeRound (hdurable : Durable p chain depth t.db.db)
    (hlast : t.lastBlocks = (windowOf chain depth).reverse)
    (hwalk : WalkInv w t.undoBlocks depth) (a : NodeAnswers) : SafeRound t w a := by
  have hround := verifyReorgRound_cases a hdurable hlast hwalk
  have hheight := hdurable.getLastBlockHeight
  refine ⟨fun t' w' hnext => ?_, fun tip hknown habove hgap => ?_, fun t' w' hreturned => ?_,
    fun t' w' error hthrew => ?_⟩
  · rw [hnext] at hround
    cases hround with
    | again hsame hwhy htip hdeleted hwindow => exact Or.inl ⟨hdeleted, hsame.db, rfl⟩
    | @rolledBack b rest left σ' _ hchain hdepth hroom hwhy htip hrolled hdeleted hwindow =>
        subst hchain hdepth
        have hindex : t.db.getLastBlockHeight = rest.length := by
          rw [hheight, List.length_cons]
          omega
        rw [windowOf_reverse_cons] at hlast
        refine Or.inr ⟨b.hash, ?_, hdurable.getLastBlockHash, ?_, ?_, ?_⟩
        · rw [hlast, List.getLast?_concat]
        · rw [hdeleted, hindex]
        · rw [hlast, List.dropLast_concat]
        · rw [hrolled.durable.getBlock, blockAt_eq_none hdurable.valid.1.hash_fresh]
          rfl
  · rw [hheight] at habove hgap
    exact verifyReorgRound_refuses hdurable hknown habove hgap a
  · rw [hreturned] at hround
    cases hround with
    | agreed hchain hanswer =>
        subst hchain
        exact ⟨recordReorg_db t w, _, hdurable.getLastBlockHash, hanswer⟩
  · rw [hthrew] at hround
    cases hround with
    | threw hsame => exact ⟨hsame.db, rfl⟩

/-- A walk that returns does so in its last round. -/
theorem walkFrom_returned_last {t' : Tracker} {w' : Walk} {answers : List NodeAnswers}
    (hreturned : t.walkFrom w answers = .returned t' w') :
    ∃ before a after t₁ w₁, answers = before ++ a :: after ∧
      t.walkFrom w before = .next t₁ w₁ ∧ t₁.verifyReorgRound w₁ a = .returned t' w' := by
  induction answers generalizing t w with
  | nil => cases hreturned
  | cons a rest ih =>
      cases hround : t.verifyReorgRound w a with
      | next t₁ w₁ =>
          rw [walkFrom_next hround] at hreturned
          obtain ⟨before, a', after, t₂, w₂, rfl, hbefore, hlast⟩ := ih hreturned
          exact ⟨a :: before, a', after, t₂, w₂, rfl, (walkFrom_next hround).trans hbefore, hlast⟩
      | returned t₁ w₁ =>
          rw [walkFrom_returned hround] at hreturned
          exact ⟨[], a, rest, t, w, rfl, rfl, hround.trans hreturned⟩
      | threw t₁ w₁ error =>
          rw [walkFrom_threw hround] at hreturned
          cases hreturned

end Walk

/-! ### A whole walk -/

/-- Where the loop starts a walk. -/
inductive WalkStart (s : Sys) : Tracker → Prop where
  | mismatch : WalkStart s s.tracker.discardBatch
  | tipBelow (hphase : s.phase = .recovering) :
      WalkStart s { s.tracker with lastBlocks := loadLastBlocksSortedByHeight s.tracker.db }

/-- A whole walk from the tracker `t`, over the store of `s`. -/
structure SafeWalk (s : Sys) (t : Tracker) (nodeTipHeight : Option Int) (answers : List NodeAnswers)
    (n : Nat) : Prop where
  /-- It rolls the newest `n` blocks back, no more than the window at entry or the undo depth. -/
  deleted : (t.verifyReorg nodeTipHeight answers).walk.blocksDeleted = newestBlocks s.chain n
  counted : (t.verifyReorg nodeTipHeight answers).walk.blocksDeleted.length = n
  within : n ≤ min t.lastBlocks.length t.undoBlocks
  rounds : ∀ before a after t₁ w₁, answers = before ++ a :: after →
    t.verifyReorg nodeTipHeight before = .next t₁ w₁ → SafeRound t₁ w₁ a
  /-- It returns on the hash the node gave for the committed height. -/
  returned : ∀ t' w', t.verifyReorg nodeTipHeight answers = .returned t' w' →
    ∃ before a after t₁ w₁, answers = before ++ a :: after ∧
      t.verifyReorg nodeTipHeight before = .next t₁ w₁ ∧
      t₁.db.getLastBlockHeight = t'.db.getLastBlockHeight ∧
      ∃ b rest, s.chain.drop n = b :: rest ∧ a.blockHash = some b.hash ∧
        t'.db.getLastBlockHash = some b.hash
  /-- However it ends, the store is the one of the blocks left, and the window in memory is the
  stored one. -/
  stored : ∃ depth, Durable (s.provenance.unwindN s.chain n) (s.chain.drop n) depth
    (t.verifyReorg nodeTipHeight answers).tracker.db.db
  window : (t.verifyReorg nodeTipHeight answers).tracker.lastBlocks =
    loadLastBlocksSortedByHeight (t.verifyReorg nodeTipHeight answers).tracker.db
  /-- Its coins are missing none but those that a bulk-seeded block among the `n` had spent. -/
  coins : CoinsExact (t.verifyReorg nodeTipHeight answers).tracker.db.db (s.chain.drop n) ↔
    s.provenance.Restorable s.chain n

/-- A walk starts on a durable store, its window reloaded. -/
theorem WalkStart.durable {s : Sys} {t : Tracker} {depth : Nat} (hstart : WalkStart s t)
    (hinv : InvAt s depth) : Durable s.provenance s.chain depth t.db.db ∧
      t.lastBlocks = (windowOf s.chain depth).reverse := by
  cases hstart with
  | mismatch =>
      obtain ⟨hdurable, hlast, -, -⟩ := hinv.durable.discardBatch
      exact ⟨hdurable, hlast⟩
  | tipBelow hphase => exact ⟨hinv.durable, hinv.durable.loadLastBlocks⟩

theorem WalkStart.safeWalk {s : Sys} {t : Tracker} {depth : Nat} (hstart : WalkStart s t)
    (hinv : InvAt s depth) (nodeTipHeight : Option Int) (answers : List NodeAnswers) :
    ∃ n, SafeWalk s t nodeTipHeight answers n := by
  obtain ⟨hdurable, hlast⟩ := hstart.durable hinv
  have hwindow := hdurable.window_length hlast
  have hwalk := WalkInv.start hwindow nodeTipHeight
  obtain ⟨n, houtcome⟩ := walkFrom_spec hdurable hlast hwalk answers
  obtain ⟨m, hdeleted, hlength⟩ := walkFrom_blocksDeleted hdurable hlast hwalk answers
  have hwalked := houtcome.walked
  have hcount := hwalked.deleted
  rw [hdeleted, List.length_append, hlength] at hcount
  obtain rfl : m = n := by omega
  have hnone : (t.startWalk nodeTipHeight).blocksDeleted.length = 0 := rfl
  have hrounds : ∀ before a after t₁ w₁, answers = before ++ a :: after →
      t.verifyReorg nodeTipHeight before = .next t₁ w₁ → SafeRound t₁ w₁ a := by
    intro before a after t₁ w₁ _ hbefore
    obtain ⟨k, hupto⟩ := walkFrom_spec hdurable hlast hwalk before
    have hwalked₁ := hupto.walked
    rw [show t.walkFrom (t.startWalk nodeTipHeight) before = .next t₁ w₁ from hbefore] at hwalked₁
    exact hwalked₁.durable.safeRound hwalked₁.last hwalked₁.walk a
  refine ⟨m, hdeleted, hwalked.deleted.trans ?_, ?_, hrounds, fun t' w' hreturned => ?_,
    ⟨_, hwalked.durable⟩, ?_, ?_⟩
  · rw [hnone, Nat.zero_add]
  · have hwithin := hwalked.walk.within
    rw [hwalked.deleted, hwalked.window, startWalk_budget] at hwithin
    omega
  · obtain ⟨before, a, after, t₁, w₁, hanswers, hbefore, hround⟩ := walkFrom_returned_last hreturned
    obtain ⟨hdb, hash, hcommitted, hanswer⟩ :=
      (hrounds before a after t₁ w₁ hanswers hbefore).returns t' w' hround
    obtain ⟨b, rest, hdrop, -⟩ := houtcome.agreed t' w' hreturned
    have hdurable' := hwalked.durable
    rw [show t.walkFrom (t.startWalk nodeTipHeight) answers = .returned t' w' from hreturned,
      hdrop] at hdurable'
    have hlastHash : t'.db.getLastBlockHash = some b.hash := hdurable'.getLastBlockHash
    have hsame : hash = b.hash := by
      rw [hdb, hcommitted] at hlastHash
      exact Option.some.inj hlastHash
    refine ⟨before, a, after, t₁, w₁, hanswers, hbefore, ?_, b, rest, hdrop, ?_, hlastHash⟩
    · rw [hdb]
    · rw [hanswer, hsame]
  · exact hwalked.last.trans hwalked.durable.loadLastBlocks.symm
  · exact hdurable.coinsExact_unwindN_iff (hwalked.le.trans hdurable.depth_le) hwalked.durable

/-! ### Runs of walks -/

/-- A step that brings no block in: a walk's, a restart's, or one that leaves the committed chain. -/
def WithoutSync (s s' : Sys) : Prop := Step s s' ∧ s'.chain <:+ s.chain

/-- Without forward sync all the walks together, restarts among them, give up no more blocks than the
window held. -/
theorem InvAt.withoutSync {s s' : Sys} {depth : Nat} (hinv : InvAt s depth)
    (hrun : Relation.ReflTransGen WithoutSync s s') :
    s'.chain <:+ s.chain ∧ s.chain.length ≤
      s'.chain.length + (loadLastBlocksSortedByHeight s.tracker.db).length := by
  have hsteps : Relation.ReflTransGen Step s s' :=
    Relation.ReflTransGen.mono (p := Step) (fun _ _ hstep => hstep.1) _ _ hrun
  obtain ⟨depth', -, -, hbottom⟩ := hinv.drop_suffix hsteps
  rw [hinv.durable.loadLastBlocks, List.length_reverse, windowOf_length hinv.durable.depth_le]
  refine ⟨?_, by omega⟩
  clear hsteps hbottom
  induction hrun with
  | refl => exact List.suffix_rfl
  | tail _ hstep ih => exact hstep.2.trans ih

/-- A step that only indexes, at any window. -/
def LiveIndexing (s s' : Sys) : Prop := ∃ undoBlocks, IndexStep undoBlocks s s'

/-- No block of the seed above the `kept` ones spent an output that they leave unspent. -/
def SeedRestorable (seed kept : Chain) : Prop :=
  ∀ b rest, b :: rest <:+ seed → kept.length ≤ rest.length → ∀ o ∈ b.spent, utxo kept o = none

theorem IndexStep.keeps {undoBlocks depth : Nat} {s s' : Sys} (hinv : InvAt s depth)
    (hstep : IndexStep undoBlocks s s') :
    s'.provenance = s.provenance ∧ s.chain <:+ s'.chain := by
  obtain ⟨hstep, hphase, -⟩ := hstep
  have hsuffix : s.chain <:+ s'.chain := by
    refine hstep.suffix_of_outside fun entry w _ entry' w' hwalking => ?_
    rw [hwalking] at hphase
    rcases hphase with hidle | hflushed
    · cases hidle
    · cases hflushed
  refine ⟨?_, hsuffix⟩
  rcases hinv.step_chain hstep with ⟨hsame, -⟩ | ⟨b, rest, hchain, hchain', -⟩
  · exact hsame
  · have hlength := hsuffix.length_le
    rw [hchain, hchain', List.length_cons] at hlength
    omega

/-- A run that only indexes keeps the seed and what is known of it. -/
theorem InvAt.indexes {s s' : Sys} {depth : Nat} (hinv : InvAt s depth)
    (hrun : Relation.ReflTransGen LiveIndexing s s') :
    (∃ depth', InvAt s' depth') ∧ s'.provenance = s.provenance ∧ s.chain <:+ s'.chain := by
  induction hrun with
  | refl => exact ⟨⟨depth, hinv⟩, rfl, List.suffix_rfl⟩
  | tail _ hstep ih =>
      obtain ⟨⟨depth₁, hinv₁⟩, hprovenance, hsuffix⟩ := ih
      obtain ⟨undoBlocks, hindex⟩ := hstep
      obtain ⟨hsame, hle⟩ := hindex.keeps hinv₁
      obtain ⟨depth₂, hinv₂, -⟩ := hinv₁.step hindex.1
      exact ⟨⟨depth₂, hinv₂⟩, hsame.trans hprovenance, hsuffix.trans hle⟩

/-- The rollbacks a seed can take. -/
theorem restorable_iff_seedRestorable {p : Provenance} {seed chain : Chain} {n : Nat}
    (hlost : p.lost = ∅) (hseeded : p.seeded = seed.length) (hsuffix : seed <:+ chain) :
    p.Restorable chain n ↔ SeedRestorable seed (chain.drop n) := by
  constructor
  · intro hrestorable b rest hseed hkept o hspent
    by_contra hsome
    refine (hrestorable o (Option.isSome_iff_ne_none.mpr hsome)).2
      ⟨b, rest, hseed.trans hsuffix, hkept, ?_, hspent⟩
    have hlength := hseed.length_le
    rw [List.length_cons] at hlength
    omega
  · intro hseed o hsome
    refine ⟨by rw [hlost]; exact Finset.notMem_empty o, ?_⟩
    rintro ⟨b, rest, hchain, hkept, hbelow, hspent⟩
    have hlength : (b :: rest).length ≤ seed.length := by
      rw [List.length_cons]
      omega
    rw [hseed b rest (List.suffix_of_suffix_length_le hchain hsuffix hlength) hkept o hspent] at hsome
    cases hsome

/-- A third block, indexed live over a seed of two. -/
def liveBlock : Block :=
  { hash := 3
    prevHash := 2
    timestamp := 30
    transactions :=
      [{ id := 103
         ins := [{ hash := 0, index := coinbaseIndex }]
         outs := [{ scriptHash := 7, value := 50 }] }] }

/-- A seed of two blocks, and a third one indexed over it. -/
theorem exists_seededLive : ∃ s₀ s, FromSeed s₀ ∧ Relation.ReflTransGen LiveIndexing s₀ s ∧
    s₀.chain = [spendingBlock, firstBlock] ∧ s.chain = liveBlock :: s₀.chain ∧ InvAt s 2 ∧
    s.tracker.undoBlocks = 1 := by
  obtain ⟨s₀, hseed, hinv₀, hphase, hchain, hundo, -⟩ := exists_seeded 1
  have hstaged : s₀.staged = [] := by
    obtain ⟨_, _, _, _, _, _, _, _, _, _, _, hstaged, _⟩ := id hseed
    exact hstaged
  have hfull := Sys.full_of_staged_nil hstaged
  have hvalid : ValidBlock s₀.full liveBlock := by
    rw [hfull, hchain]
    decide
  obtain ⟨t₁, hrun₁, hundo₁, -, hinv₁⟩ := hinv₀.stage hphase hvalid
  obtain ⟨hash, t₂, hhash, hrun₂, hundo₂, -, -, hinv₂⟩ :=
    hinv₁.flush hphase (List.cons_ne_nil _ _)
  have hone : (s₀.afterStage liveBlock t₁).staged = [liveBlock] := congrArg (liveBlock :: ·) hstaged
  have hcommitted : (s₀.afterStage liveBlock t₁).full = liveBlock :: s₀.chain :=
    congrArg (liveBlock :: ·) hfull
  have hsize : t₂.undoBlocks = 1 := hundo₂.trans (hundo₁.trans hundo)
  have hstep₁ : LiveIndexing s₀ (s₀.afterStage liveBlock t₁) :=
    ⟨1, .stage hphase hvalid hrun₁, Or.inl hphase, hundo₁.trans hundo⟩
  have hstep₂ : LiveIndexing (s₀.afterStage liveBlock t₁) _ :=
    ⟨1, .flush hphase (List.cons_ne_nil _ _) hhash hrun₂, Or.inr rfl, hsize⟩
  rw [hone] at hinv₂
  exact ⟨s₀, _, hseed, (Relation.ReflTransGen.single hstep₁).tail hstep₂, hchain, hcommitted, hinv₂,
    hsize⟩

/-- The node has the block `hash`. -/
def agreeing (hash : Hash) : NodeAnswers := ⟨some hash, [], true⟩

end UtxoTracker

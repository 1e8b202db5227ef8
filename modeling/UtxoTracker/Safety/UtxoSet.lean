import UtxoTracker.Proof.Start
/-!
# The durable coins are the chain's unspent outputs

A tracker started on an empty path, in any run of the loop: the `O` and `H` records on disk are the
outputs that the committed chain creates and never spends, and every other family agrees with the
same chain.
-/

namespace UtxoTracker

open KeyedStore LevelUpStore Provenance Tracker

/-! ### Every durable state -/

theorem reachable_inv {s : Sys} (hreach : Transition.Reachable FromEmpty Step s) : Inv s :=
  Inv.reachable (fun _ hinit => hinit.inv) hreach

theorem unwind_live (b : Block) (rest : Chain) :
    Provenance.live.unwind b rest = Provenance.live := by
  simp [Provenance.unwind, Provenance.live]

theorem Step.live {s s' : Sys} (hstep : Step s s') (hlive : s.provenance = Provenance.live) :
    s'.provenance = Provenance.live := by
  cases hstep with
  | walkNext hphase hround =>
      unfold Sys.afterRound
      split
      · split
        · rw [hlive]
          exact unwind_live _ _
        · exact hlive
      · exact hlive
  | _ => exact hlive

/-- Nothing a live-built store indexes was ever seeded or lost. -/
theorem reachable_live {s : Sys} (hreach : Transition.Reachable FromEmpty Step s) :
    s.provenance = Provenance.live := by
  refine hreach.invariant (fun s hinit => ?_) fun _ _ hlive hstep => hstep.live hlive
  obtain ⟨_, _, _, _, _, hprovenance, _⟩ := hinit
  exact hprovenance

/-- What a live-built store holds, in every state of every run. -/
theorem reachable_durable {s : Sys} (hreach : Transition.Reachable FromEmpty Step s) :
    ∃ depth, Durable Provenance.live s.chain depth s.db := by
  obtain ⟨depth, hinv⟩ := reachable_inv hreach
  have hdurable := hinv.durable
  rw [reachable_live hreach] at hdurable
  exact ⟨depth, hdurable⟩

/-! ### Every valid chain can be indexed -/

/-- Stage one more block and flush it. -/
theorem flushed_of_valid {undoBlocks : Nat} {s : Sys}
    (hreach : Transition.Reachable (FromEmptyAt undoBlocks) (IndexStep undoBlocks) s)
    (hphase : s.phase = .idle) (hstaged : s.staged = [])
    (hundo : s.tracker.undoBlocks = undoBlocks) {b : Block} (hvalid : ValidBlock s.chain b) :
    ∃ s', Transition.Reachable (FromEmptyAt undoBlocks) (IndexStep undoBlocks) s' ∧
      s'.phase = .flushed ∧ s'.staged = [] ∧ s'.chain = b :: s.chain ∧
      s'.tracker.undoBlocks = undoBlocks ∧
      s'.tracker.lastBlocks = (s.tracker.lastBlocks ++ [b.hash]).drop
        ((s.tracker.lastBlocks ++ [b.hash]).length - undoBlocks) := by
  obtain ⟨depth, hinv⟩ :=
    reachable_inv (hreach.mono (fun _ hinit => hinit.1) fun _ _ hstep => hstep.1)
  have hfull := Sys.full_of_staged_nil hstaged
  rw [← hfull] at hvalid
  obtain ⟨t₁, hrun₁, hundo₁, hlast₁, hinv₁⟩ := hinv.stage hphase hvalid
  have hreach₁ := hreach.next ⟨.stage hphase hvalid hrun₁, Or.inl hphase, hundo₁.trans hundo⟩
  obtain ⟨hash, t₂, hhash, hrun₂, hundo₂, hlast₂, -, -⟩ :=
    hinv₁.flush hphase (List.cons_ne_nil _ _)
  have hundo' : t₂.undoBlocks = undoBlocks := hundo₂.trans (hundo₁.trans hundo)
  refine ⟨_, hreach₁.next ⟨.flush hphase (List.cons_ne_nil _ _) hhash hrun₂, Or.inr rfl, hundo'⟩,
    rfl, rfl, ?_, hundo', ?_⟩
  · simp [Sys.full, Sys.afterStage, hstaged]
  · rw [← hundo]
    exact hlast₂.trans hlast₁

/-- Clean up after a flush. -/
theorem cleaned_of_flushed {undoBlocks : Nat} {s : Sys}
    (hreach : Transition.Reachable (FromEmptyAt undoBlocks) (IndexStep undoBlocks) s)
    (hphase : s.phase = .flushed) (hundo : s.tracker.undoBlocks = undoBlocks) :
    ∃ t, s.tracker.cleanupAgedBlocks = .ok t ∧ t.undoBlocks = undoBlocks ∧
      t.lastBlocks = s.tracker.lastBlocks ∧
      Transition.Reachable (FromEmptyAt undoBlocks) (IndexStep undoBlocks)
        { s with tracker := t.finishFlushedBlock, phase := .idle } := by
  obtain ⟨depth, hinv⟩ :=
    reachable_inv (hreach.mono (fun _ hinit => hinit.1) fun _ _ hstep => hstep.1)
  obtain ⟨t, hrun, hundo', hlast, -⟩ := hinv.cleanup hphase
  have hsize : t.undoBlocks = undoBlocks := hundo'.trans hundo
  exact ⟨t, hrun, hsize, hlast, hreach.next ⟨.cleanup hphase hrun, Or.inl rfl, hsize⟩⟩

/-- **Every valid chain is indexed by some run**, at any window size, without a walk back. -/
theorem indexed_of_valid {chain : Chain} (hvalid : ValidChain chain) (undoBlocks : Nat) :
    ∃ s, Transition.Reachable (FromEmptyAt undoBlocks) (IndexStep undoBlocks) s ∧
      s.phase = .idle ∧ s.staged = [] ∧ s.chain = chain ∧ s.tracker.undoBlocks = undoBlocks ∧
      s.tracker.lastBlocks = (windowOf chain undoBlocks).reverse := by
  induction chain with
  | nil =>
      exact ⟨Sys.empty undoBlocks, .start ⟨fromEmpty_empty undoBlocks, rfl⟩, rfl, rfl, rfl, rfl,
        by simpa [windowOf, Sys.empty] using (durable_stamped.load undoBlocks).2⟩
  | cons b rest ih =>
      obtain ⟨s, hreach, hphase, hstaged, hchain, hundo, hlast⟩ := ih hvalid.2
      rw [← hchain] at hlast ⊢
      obtain ⟨s₁, hreach₁, hphase₁, hstaged₁, hchain₁, hundo₁, hlast₁⟩ :=
        flushed_of_valid hreach hphase hstaged hundo (hchain ▸ hvalid.1)
      obtain ⟨t, -, hundo₂, hlast₂, hreach₂⟩ := cleaned_of_flushed hreach₁ hphase₁ hundo₁
      refine ⟨_, hreach₂, rfl, hstaged₁, hchain₁, hundo₂, hlast₂.trans ?_⟩
      rw [hlast₁, hlast, ← windowOf_reverse_cons, List.length_reverse, ← List.reverse_take]
      simp only [windowOf, List.map_take, List.take_take, Nat.min_eq_left (Nat.le_succ undoBlocks)]

theorem reachable_of_valid {chain : Chain} (hvalid : ValidChain chain) (undoBlocks : Nat) :
    ∃ s, Transition.Reachable FromEmpty Step s ∧ s.phase = .idle ∧ s.staged = [] ∧
      s.chain = chain ∧ s.tracker.undoBlocks = undoBlocks ∧
      s.tracker.lastBlocks = (windowOf chain undoBlocks).reverse := by
  obtain ⟨s, hreach, hrest⟩ := indexed_of_valid hvalid undoBlocks
  exact ⟨s, hreach.mono (fun _ hinit => hinit.1) fun _ _ hstep => hstep.1, hrest⟩

/-! ### The coins on disk -/

/-- **The durable coins are exact.** In every durable state of every run the tip pointer names the
newest block of a valid chain, the `O` and `H` records are the outputs that chain creates and never
spends, and all per-block families hold that chain's records, so no block is half applied. -/
theorem durable_coins_exact {s : Sys} (hreach : Transition.Reachable FromEmpty Step s) :
    ValidChain s.chain ∧ TipPointer s.db s.chain ∧
      (∀ script txid idx value, s.db[Key.output script txid idx]? = some value ↔
        ∃ out, everCreated s.chain ⟨txid, idx⟩ = some out ∧
          (∀ c ∈ s.chain, ⟨txid, idx⟩ ∉ c.spent) ∧ out.scriptPubKey = script ∧
          value = .output ⟨out.value, out.height, txid, out.coinbase⟩) ∧
      (∀ txid idx value, s.db[Key.outHint txid idx]? = some value ↔
        ∃ out, everCreated s.chain ⟨txid, idx⟩ = some out ∧
          (∀ c ∈ s.chain, ⟨txid, idx⟩ ∉ c.spent) ∧ value = .hash out.scriptPubKey) ∧
      ∃ depth ≤ s.chain.length, ∀ k : Key, k.isMeta = false →
        s.db[k]? = Provenance.live.record s.chain (windowOf s.chain depth) k := by
  obtain ⟨depth, hdurable⟩ := reachable_durable hreach
  have hcoins : ∀ o, Provenance.live.coins s.chain o = utxo s.chain o :=
    fun o => if_neg (Finset.notMem_empty o)
  refine ⟨hdurable.valid, hdurable.tip, fun script txid idx value => ?_, fun txid idx value => ?_,
    depth, hdurable.depth_le, hdurable.indexes⟩
  · rw [hdurable.indexes _ rfl, record, hcoins, outputValue_eq_some]
    constructor
    · rintro ⟨out, hout, hscript, hvalue⟩
      obtain ⟨hever, hunspent⟩ := hdurable.valid.utxo_eq_some.mp hout
      have htxid : out.txHash = txid := congrArg OutPoint.txid (everCreated_fields hever).1
      exact ⟨out, hever, hunspent, hscript, by rw [hvalue, NewOutput.record, htxid]⟩
    · rintro ⟨out, hever, hunspent, hscript, hvalue⟩
      have htxid : out.txHash = txid := congrArg OutPoint.txid (everCreated_fields hever).1
      exact ⟨out, hdurable.valid.utxo_eq_some.mpr ⟨hever, hunspent⟩, hscript,
        by rw [hvalue, NewOutput.record, htxid]⟩
  · rw [hdurable.indexes _ rfl, record, hcoins, hintValue, Option.map_eq_some_iff]
    constructor
    · rintro ⟨out, hout, hvalue⟩
      obtain ⟨hever, hunspent⟩ := hdurable.valid.utxo_eq_some.mp hout
      exact ⟨out, hever, hunspent, hvalue.symm⟩
    · rintro ⟨out, hever, hunspent, hvalue⟩
      exact ⟨out, hdurable.valid.utxo_eq_some.mpr ⟨hever, hunspent⟩, hvalue.symm⟩

/-- A first block with one coinbase output. -/
def firstBlock : Block :=
  { hash := 1
    prevHash := 0
    timestamp := 10
    transactions :=
      [{ id := 100
         ins := [{ hash := 0, index := coinbaseIndex }]
         outs := [{ scriptHash := 7, value := 50 }] }] }

/-- A second block that spends it. -/
def spendingBlock : Block :=
  { hash := 2
    prevHash := 1
    timestamp := 20
    transactions :=
      [{ id := 101
         ins := [{ hash := 0, index := coinbaseIndex }]
         outs := [{ scriptHash := 7, value := 50 }] },
       { id := 102
         ins := [{ hash := 100, index := 0 }]
         outs := [{ scriptHash := 8, value := 49 }] }] }

theorem validChain_spending : ValidChain [spendingBlock, firstBlock] := by decide

/-- A tracker that has committed the two blocks in one batch. -/
def twoBlockTracker (undoBlocks : Nat) : Option Tracker := do
  let t ← ((load (setLayoutVersion ∅) undoBlocks).indexNextBlock firstBlock).bind Except.toOption
  let t ← (t.indexNextBlock spendingBlock).bind Except.toOption
  let t ← (t.commitBatch spendingBlock.hash t.lastProcessedBlockIndex).toOption
  t.finishFlushedBlock

/-- After the second block the spent coinbase is gone and the new output is there. -/
theorem durable_coins_exact_spending :
    ∃ s, Transition.Reachable FromEmpty Step s ∧ s.chain = [spendingBlock, firstBlock] ∧
      s.db[Key.outHint 100 0]? = none ∧
      s.db[Key.output 8 102 0]? = some (.output ⟨49, 1, 102, false⟩) := by
  obtain ⟨s, hreach, -, -, hchain, -, -⟩ := reachable_of_valid validChain_spending 2
  obtain ⟨-, -, houtput, hhint, -⟩ := durable_coins_exact hreach
  rw [hchain] at houtput hhint
  refine ⟨s, hreach, hchain, ?_, ?_⟩
  · rw [Option.eq_none_iff_forall_ne_some]
    intro value hvalue
    obtain ⟨out, -, hunspent, -⟩ := (hhint 100 0 value).mp hvalue
    exact hunspent spendingBlock (by decide) (by decide)
  · rw [houtput]
    exact ⟨⟨8, 102, 0, 49, 1, false⟩, by decide, by decide, rfl, rfl⟩

end UtxoTracker

import UtxoTracker.Proof.RepeatedStreams
import UtxoTracker.Safety.BulkSync
import UtxoTracker.Safety.UtxoSet
/-!
# Repeated transaction ids

Where a block carries a transaction of an earlier one again, the live store puts the new record over
the old one, and a spend erases it; the bulk pipeline cancels a creation for each spend, the earliest
first, and keeps the last one left. A coin created twice while unspent and then spent is gone from
the live store and still there in the bulk one.
-/

namespace UtxoTracker

open LevelUpStore Bulk Recreation AntiJoin Provenance

variable {chain : Chain} {dumps : List Dump} {opts : BulkOptions} {db db' : Db} {t : Tracker}

/-- The two stores hold the same records of an outpoint: there or not alike, and if there then those
of the last block that created it. -/
structure AgreesAt (chain : Chain) (bulk live : Db) (o : OutPoint) : Prop where
  hint : bulk[Key.outHint o.txid o.index]? = live[Key.outHint o.txid o.index]?
  output : ∀ script, bulk[Key.output script o.txid o.index]? = live[Key.output script o.txid o.index]?
  latest : ∀ script value, live[Key.output script o.txid o.index]? = some value →
    outputValue script (creations (history chain o)).getLast? = some value

/-! ### Histories of a chain -/

/-- Every spend of a chain finds its coin. -/
theorem RepeatableChain.valid (hchain : RepeatableChain chain) (o : OutPoint) :
    Valid (history chain o) := by
  induction chain with
  | nil => trivial
  | cons b rest ih =>
      refine ⟨fun hspent => ?_, ih hchain.2⟩
      exact hchain.1.spendable o (of_decide_eq_true hspent)

theorem RepeatableChain.creations_nodup (hchain : RepeatableChain chain) (o : OutPoint) :
    (creations (history chain o)).Nodup :=
  (hchain.creations_pairwise o).imp fun hlater heq => absurd (congrArg NewOutput.height heq)
    hlater.1.ne

/-- A creation is known by its height. -/
theorem RepeatableChain.creation_ext (hchain : RepeatableChain chain) {o : OutPoint}
    {out out' : NewOutput} (hmem : out ∈ creations (history chain o))
    (hmem' : out' ∈ creations (history chain o)) (hheight : out.height = out'.height) :
    out = out' := by
  have hnodup : ((creations (history chain o)).map NewOutput.height).Nodup :=
    List.pairwise_map.mpr ((hchain.creations_pairwise o).imp fun hlater => hlater.1.ne)
  exact List.inj_on_of_nodup_map hnodup hmem hmem' hheight

/-! ### Agreement -/

/-- **The stores agree where the readings of the history do.** -/
theorem RepeatableChain.agreesAt_iff_joined (hchain : RepeatableChain chain) {bulk live : Db}
    (hbulk : CoinRecords (fun k => bulk[k]?) fun o => joined (history chain o))
    (hlive : CoinRecords (fun k => live[k]?) (keptCoinAt chain)) (o : OutPoint) :
    AgreesAt chain bulk live o ↔ joined (history chain o) = keptCoinAt chain o := by
  have hhint : bulk[Key.outHint o.txid o.index]? = hintValue (joined (history chain o)) :=
    hbulk.hint _ _
  have hhint' : live[Key.outHint o.txid o.index]? = hintValue (keptCoinAt chain o) :=
    hlive.hint _ _
  have houtput : ∀ script, bulk[Key.output script o.txid o.index]? =
      outputValue script (joined (history chain o)) := fun script => hbulk.output script _ _
  have houtput' : ∀ script, live[Key.output script o.txid o.index]? =
      outputValue script (keptCoinAt chain o) := fun script => hlive.output script _ _
  have hlast : ∀ out, joined (history chain o) = some out →
      (creations (history chain o)).getLast? = some out := by
    intro out hjoined
    rw [joined, List.getLast?_drop] at hjoined
    split at hjoined
    · cases hjoined
    · exact hjoined
  constructor
  · intro hagrees
    have hhints := hhint.symm.trans (hagrees.hint.trans hhint')
    rcases hjoined : joined (history chain o) with _ | out <;>
      rcases hkept : keptCoinAt chain o with _ | coin
    · rfl
    · rw [hjoined, hkept] at hhints
      cases hhints
    · rw [hjoined, hkept] at hhints
      cases hhints
    have hvalue := (houtput out.scriptPubKey).symm.trans
      ((hagrees.output out.scriptPubKey).trans (houtput' out.scriptPubKey))
    rw [hjoined, hkept, outputValue_some, outputValue_some, if_pos rfl] at hvalue
    split_ifs at hvalue with hscript
    have hrecord : out.record = coin.record := by simpa using hvalue
    exact congrArg some (hchain.creation_ext (List.mem_of_getLast? (hlast out hjoined))
      (mem_creations_of_overwriting hkept) (congrArg OutputRecord.h hrecord))
  · intro heq
    refine ⟨by rw [hhint, hhint', heq], fun script => by rw [houtput, houtput', heq],
      fun script value hget => ?_⟩
    rw [houtput', ← heq] at hget
    rcases hjoined : joined (history chain o) with _ | out
    · rw [hjoined] at hget
      cases hget
    · rw [hlast out hjoined, ← hjoined, hget]

/-- **Bulk and live agree on a repeated outpoint** exactly when, if it ends unspent, no block took back
a creation of its own since the coin was last created and kept, and otherwise no block created it
again, and kept it, while it was unspent. -/
theorem repeated_agrees_iff (hchain : RepeatableChain chain) (hne : chain ≠ [])
    (hdumps : CutInto chain dumps) (hbulk : bulkSync opts dumps db = .ok db') {undoBlocks : Nat}
    (hlive : Tracker.indexEach undoBlocks chain = some t) (o : OutPoint) :
    AgreesAt chain db' t.db.db o ↔
      if (keptCoinAt chain o).isSome then takenBack (history chain o) = false
      else overwrites (history chain o) = 0 := by
  rw [hchain.agreesAt_iff_joined (hchain.bulkSync_coins hne hdumps hbulk)
    (hchain.indexEach hlive).coins]
  exact joined_eq_overwriting_iff (hchain.valid o) (hchain.creations_nodup o)

/-! ### The bulk run -/

/-- **No spend of a repeatable chain is an orphan**, so its bulk run ends unless the outputs outnumber
their row ids. -/
theorem RepeatableChain.bulkSync_ok (hchain : RepeatableChain chain) (hne : chain ≠ [])
    (hdumps : CutInto chain dumps) (hfresh : holdsNothingButCurrentStamp db = true)
    (hfew : (chainOutputs chain).length ≤ 0xFFFFFFFF + 1) :
    ∃ db', bulkSync opts dumps db = .ok db' := by
  obtain ⟨b, rest, rfl⟩ := List.exists_cons_of_ne_nil hne
  have horphans : (chainJoin opts.ramBudgetBytes (b :: rest)).orphanSpends = 0 := by
    have hcounts : (chainJoin opts.ramBudgetBytes (b :: rest)).orphanSpends =
        ∑ k ∈ ((chainOutputs (b :: rest)).map OutputsRecord.key ++
          (chainSpends (b :: rest)).map SpendsRecord.key).toFinset, _ := (joinRecords_counts
      (sortBy_sorted opts.ramBudgetBytes outputsRecordSize (chainOutputs (b :: rest)))
      (sortBy_sorted opts.ramBudgetBytes spendsRecordSize (chainSpends (b :: rest)))
      (fun l hl => by simpa using Or.inl ⟨l, (mem_sortBy _ _ _).mp hl, rfl⟩)
      (fun r hr => by simpa using Or.inr ⟨r, (mem_sortBy _ _ _).mp hr, rfl⟩)).2
    rw [hcounts]
    refine Finset.sum_eq_zero fun k _ => Nat.sub_eq_zero_of_le ?_
    rw [sortBy_stable, sortBy_stable]
    rcases hspends : withKey SpendsRecord.key k (chainSpends (b :: rest)) with _ | ⟨spend, more⟩
    · exact Nat.zero_le _
    have hkey : spend.outPoint.fields = k := by
      have hmem : spend ∈ withKey SpendsRecord.key k (chainSpends (b :: rest)) := by
        rw [hspends]
        exact List.mem_cons_self
      rw [← SpendsRecord.key_eq]
      simpa using (List.mem_filter.mp hmem).2
    rw [← hspends, ← hkey, hchain.spends, ← List.length_map (f := OutputsRecord.newOutput),
      hchain.outputs, length_creations (hchain.valid _)]
    omega
  rw [bulkSync_streams opts hdumps hfresh, if_neg (by omega), if_neg (by omega)]
  exact ⟨_, rfl⟩

/-! ### A coinbase that came twice -/

/-- The first block's coinbase, mined again. -/
def repeatingBlock : Block := { firstBlock with hash := 2, prevHash := 1 }

/-- A block that spends it. -/
def spendingRepeated : Block :=
  { hash := 3
    prevHash := 2
    timestamp := 30
    transactions :=
      [{ id := 102
         ins := [{ hash := 100, index := 0 }]
         outs := [{ scriptHash := 8, value := 50 }] }] }

theorem repeatableChain_spending : RepeatableChain [spendingRepeated, repeatingBlock, firstBlock] := by
  decide

theorem indexEach_spending :
    ∃ t, Tracker.indexEach 10 [spendingRepeated, repeatingBlock, firstBlock] = some t :=
  Option.isSome_iff_exists.mp (by decide +kernel)

/-- Unspent, the repeated coinbase has the record of its second block in both stores. -/
theorem repeated_agrees_iff_twice :
    ∃ db' t, bulkSync ⟨⟨1, 1, true⟩, ⟨1, 0⟩, 3⟩ [⟨0, [firstBlock]⟩, ⟨1, [repeatingBlock]⟩] ∅ =
        .ok db' ∧ Tracker.indexEach 10 [repeatingBlock, firstBlock] = some t ∧
      AgreesAt [repeatingBlock, firstBlock] db' t.db.db ⟨100, 0⟩ := by
  obtain ⟨t₁, hlive₁⟩ := indexEach_spending
  obtain ⟨t, hlive, -⟩ := Option.bind_eq_some_iff.mp hlive₁
  have hcut : CutInto [repeatingBlock, firstBlock] [⟨0, [firstBlock]⟩, ⟨1, [repeatingBlock]⟩] :=
    ⟨⟨rfl, by simp, rfl, by simp, trivial⟩, rfl⟩
  obtain ⟨db', hbulk⟩ : ∃ db', bulkSync ⟨⟨1, 1, true⟩, ⟨1, 0⟩, 3⟩
      [⟨0, [firstBlock]⟩, ⟨1, [repeatingBlock]⟩] ∅ = .ok db' :=
    repeatableChain_spending.2.bulkSync_ok (by simp) hcut holdsNothing_empty (by decide)
  exact ⟨db', t, hbulk, hlive, (repeated_agrees_iff repeatableChain_spending.2 (by simp) hcut hbulk
    hlive _).mpr (by decide)⟩

/-- **The spent coinbase stays in the bulk store.** Created twice and spent once, it is gone from the
live store and unspent in the bulk one. -/
theorem repeated_survives_bulk :
    ∃ db' t, RepeatableChain [spendingRepeated, repeatingBlock, firstBlock] ∧
      bulkSync ⟨⟨1, 1, true⟩, ⟨1, 0⟩, 3⟩
        [⟨0, [firstBlock]⟩, ⟨1, [repeatingBlock, spendingRepeated]⟩] ∅ = .ok db' ∧
      Tracker.indexEach 10 [spendingRepeated, repeatingBlock, firstBlock] = some t ∧
      (db'[Key.outHint 100 0]?).isSome ∧ db'[Key.output 7 100 0]? = some (.output ⟨50, 1, 100, true⟩) ∧
      t.db.db[Key.outHint 100 0]? = none ∧ t.db.db[Key.output 7 100 0]? = none := by
  obtain ⟨t, hlive⟩ := indexEach_spending
  have hcut : CutInto [spendingRepeated, repeatingBlock, firstBlock]
      [⟨0, [firstBlock]⟩, ⟨1, [repeatingBlock, spendingRepeated]⟩] :=
    ⟨⟨rfl, by simp, rfl, by simp, trivial⟩, rfl⟩
  obtain ⟨db', hbulk⟩ : ∃ db', bulkSync ⟨⟨1, 1, true⟩, ⟨1, 0⟩, 3⟩
      [⟨0, [firstBlock]⟩, ⟨1, [repeatingBlock, spendingRepeated]⟩] ∅ = .ok db' :=
    repeatableChain_spending.bulkSync_ok (by simp) hcut holdsNothing_empty (by decide)
  have hloaded := repeatableChain_spending.bulkSync_coins (by simp) hcut hbulk
  have hindexed := (repeatableChain_spending.indexEach hlive).coins
  have hhint : db'[Key.outHint 100 0]? = some (.hash 7) := (hloaded.hint 100 0).trans (by decide)
  exact ⟨db', t, repeatableChain_spending, hbulk, hlive, by rw [hhint]; rfl,
    (hloaded.output 7 100 0).trans (by decide), (hindexed.hint 100 0).trans (by decide),
    (hindexed.output 7 100 0).trans (by decide)⟩

end UtxoTracker

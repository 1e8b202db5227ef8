import UtxoTracker.Proof.Growth
import UtxoTracker.Proof.Seed
/-!
# A bulk-loaded store is a live-indexed one

The bulk pipeline sorts and joins streams of fixed-size records; the tracker indexes block by block.
On one chain and at one window size they leave the same records, apart from the recovery records of
spends, which only live indexing writes.
-/

namespace UtxoTracker

open KeyedStore LevelUpStore Provenance Tracker Bulk

/-- The families a bulk load writes, with the tip, the watermark and the stamp. -/
def Key.seeded : Key → Bool
  | .outDel _ _ _ _ | .hintDel _ _ _ | .input _ _ | .inHint _ _ _ => false
  | .pendingCleanup | .haltMarker => false
  | _ => true

/-- With the tx index on, seeded and live-indexed blocks have the same records, those of spends
apart. -/
theorem record_bulk_eq_live {chain : Chain} {window : List Hash} {k : Key} (hseeded : k.seeded = true) :
    (Provenance.bulk chain.length true).record chain window k =
      Provenance.live.record chain window k := by
  have hindexed : ∀ height, (Provenance.bulk chain.length true).indexed height =
      Provenance.live.indexed height := by simp [indexed, Provenance.bulk, Provenance.live]
  cases k with
  | outDel _ _ _ _ | hintDel _ _ _ => cases hseeded
  | tx txid => simp only [record, hindexed]
  | txExact txid => simp only [record, hindexed]
  | txBlockRecovery hash txid => simp only [record, windowRecord, undoRecord, hindexed]
  | _ => rfl

/-- **Bulk sync equals live indexing.** However a chain is cut into dumps, whatever the sort budget
and the batch sizes, a bulk load with the tx index on ends in the store of every live run that
indexed the same chain at the same window and cleaned up: the `O`, `H`, `S`, `W`, `Z`, `T`, `X`, `Y`,
`N` and `B` records, the watermark, the tip and the stamp are equal. A chain with more outputs than
row ids is refused. -/
theorem bulk_equals_live {chain : Chain} {dumps : List Dump} {opts : BulkOptions} {db : Db} {s : Sys}
    {t : Tracker} (hvalid : ValidChain chain) (hne : chain ≠ []) (hdumps : CutInto chain dumps)
    (hfresh : holdsNothingButCurrentStamp db = true) (hundo : 0 < opts.undoBlocks)
    (hindex : opts.txIndex = true)
    (hreach : Transition.Reachable (FromEmptyAt opts.undoBlocks) (IndexStep opts.undoBlocks) s)
    (hphase : s.phase = .flushed) (hchain : s.chain = chain)
    (hcleanup : s.tracker.cleanupAgedBlocks = .ok t) :
    if 0xFFFFFFFF + 1 < (chainOutputs chain).length then
      bulkSync opts dumps db = .error (.derive (.rowIdOverflow (0xFFFFFFFF + 1)))
    else ∃ db', bulkSync opts dumps db = .ok db' ∧
      ∀ k : Key, k.seeded = true → db'[k]? = t.db.db[k]? := by
  have hbulk := bulkSync_chain opts hvalid hne hdumps hfresh
  split
  · next hmany => rwa [if_pos hmany] at hbulk
  next hfew =>
  rw [if_neg hfew] at hbulk
  obtain ⟨db', hrun, hstore⟩ := hbulk
  obtain ⟨hinv, hgrowth, -⟩ := (growth_of_reachable hreach).cleanup hphase hcleanup
  have hlive : s.provenance = Provenance.live :=
    reachable_live (hreach.mono (fun _ hinit => hinit.1) fun _ _ hstep => hstep.1)
  have hdurable := hinv.durable
  subst hchain
  rw [hlive, Origin.nothing_window] at hdurable
  refine ⟨db', hrun, fun k hseeded => ?_⟩
  cases hmeta : k.isMeta with
  | false =>
      have hbulk := hstore.durable.indexes k hmeta
      rw [hindex, record_bulk_eq_live hseeded, ← hdurable.indexes k hmeta] at hbulk
      exact hbulk
  | true =>
      obtain ⟨b, rest, htip⟩ := List.exists_cons_of_ne_nil hne
      have hmark := hgrowth.mark.durable
      have htipBulk := hstore.durable.tip
      have htipLive := hdurable.tip
      rw [htip] at htipBulk htipLive
      cases k with
      | lastBlockHeight => exact htipBulk.1.trans htipLive.1.symm
      | lastBlockHash => exact htipBulk.2.trans htipLive.2.symm
      | layoutVersion => exact hstore.durable.stamp.trans hdurable.stamp.symm
      | undoWatermark =>
          have hblocks : s.chain.length ≠ Origin.nothing.blocks := mt List.length_eq_zero_iff.mp hne
          have hpos : 0 < min opts.undoBlocks s.chain.length :=
            lt_min hundo (List.length_pos_iff.mpr hne)
          rw [Origin.markRecord, if_neg hblocks, Origin.nothing_mark] at hmark
          rw [hstore.watermark, if_pos hpos]
          exact hmark.symm
      | pendingCleanup | haltMarker => cases hseeded
      | _ => cases hmeta

theorem holdsNothing_empty : holdsNothingButCurrentStamp ∅ = true := by
  have hnil : (∅ : Db).toList = [] := Std.ExtTreeMap.toList_eq_nil_iff.mpr rfl
  rw [holdsNothingButCurrentStamp, hnil]

/-- Two dumps of one block each, sorted a record at a time, against two flushes: the unspent output
is the same, its value under its script included. -/
theorem bulk_equals_live_spending :
    ∃ db' t, bulkSync ⟨⟨1, 1, true⟩, ⟨1, 0⟩, 3⟩ [⟨0, [firstBlock]⟩, ⟨1, [spendingBlock]⟩] ∅ =
        .ok db' ∧
      (∃ s, Transition.Reachable (FromEmptyAt 1) (IndexStep 1) s ∧
        s.tracker.cleanupAgedBlocks = .ok t) ∧
      db'[Key.output 8 102 0]? = t.db.db[Key.output 8 102 0]? := by
  obtain ⟨s, hreach, hphase, hstaged, hchain, hundo, -⟩ :=
    indexed_of_valid validChain_spending.2 1
  obtain ⟨s₁, hreach₁, hphase₁, -, hchain₁, hundo₁, -⟩ :=
    flushed_of_valid hreach hphase hstaged hundo (hchain ▸ validChain_spending.1)
  obtain ⟨t, hcleanup, -⟩ := cleaned_of_flushed hreach₁ hphase₁ hundo₁
  have hall := bulk_equals_live validChain_spending (by simp)
    (show CutInto _ [⟨0, [firstBlock]⟩, ⟨1, [spendingBlock]⟩] from
      ⟨⟨rfl, by simp, rfl, by simp, trivial⟩, rfl⟩) holdsNothing_empty
    (show 0 < (⟨⟨1, 1, true⟩, ⟨1, 0⟩, 3⟩ : BulkOptions).undoBlocks by decide) rfl hreach₁ hphase₁ (hchain₁.trans (by rw [hchain])) hcleanup
  rw [if_neg (by decide)] at hall
  obtain ⟨db', hrun, heq⟩ := hall
  exact ⟨db', t, hrun, ⟨s₁, hreach₁, hcleanup⟩, heq _ rfl⟩

end UtxoTracker

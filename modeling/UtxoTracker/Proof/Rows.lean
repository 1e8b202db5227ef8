import UtxoTracker.Proof.Durable
import UtxoTracker.Proof.Lookup
import UtxoTracker.Proof.Rollback
import UtxoTracker.Proof.Streams
/-!
# What the derived rows hold

The rows of the prefix files are the reference record of the chain, key by key: a row is there
exactly when the reference gives its key that value.
-/

namespace UtxoTracker

open KeyedStore LevelUpStore Bulk Provenance

/-! ### Looking a block up -/

section Lookups

variable {chain rest : Chain} {b : Block}

theorem ValidChain.blockAt_iff (hvalid : ValidChain chain) {hash : Hash} :
    blockAt chain hash = some (b, rest) ↔ b :: rest <:+ chain ∧ b.hash = hash := by
  induction chain with
  | nil => simp [blockAt]
  | cons c chain ih =>
      rw [blockAt_cons, suffix_cons_iff]
      by_cases hhash : c.hash = hash
      · rw [if_pos hhash, Option.some.injEq, Prod.mk.injEq]
        constructor
        · rintro ⟨rfl, rfl⟩
          exact ⟨Or.inl ⟨rfl, rfl⟩, hhash⟩
        · rintro ⟨⟨rfl, rfl⟩ | hbelow, hb⟩
          · exact ⟨rfl, rfl⟩
          · have hmem : b ∈ chain := hbelow.subset List.mem_cons_self
            exact absurd (hb.trans hhash.symm) (hvalid.1.hash_fresh b hmem)
      · rw [if_neg hhash, ih hvalid.2]
        refine and_congr_left fun hb => ⟨Or.inr, fun h => h.resolve_left ?_⟩
        rintro ⟨rfl, rfl⟩
        exact hhash hb

theorem ValidChain.txBlock_iff (hvalid : ValidChain chain) {txid : Hash} :
    txBlock chain txid = some (b, rest) ↔ b :: rest <:+ chain ∧ b.hasTx txid = true := by
  induction chain with
  | nil => simp [txBlock]
  | cons c chain ih =>
      rw [txBlock_cons, suffix_cons_iff]
      by_cases hhas : c.hasTx txid = true
      · rw [if_pos hhas, Option.some.injEq, Prod.mk.injEq]
        constructor
        · rintro ⟨rfl, rfl⟩
          exact ⟨Or.inl ⟨rfl, rfl⟩, hhas⟩
        · rintro ⟨⟨rfl, rfl⟩ | hbelow, hb⟩
          · exact ⟨rfl, rfl⟩
          · obtain ⟨tx, htx, rfl⟩ := Block.hasTx_iff.mp hhas
            have hmem : b ∈ chain := hbelow.subset List.mem_cons_self
            rw [hvalid.1.ids_fresh tx htx b hmem] at hb
            cases hb
      · rw [if_neg hhas, ih hvalid.2]
        refine and_congr_left fun hb => ⟨Or.inr, fun h => h.resolve_left ?_⟩
        rintro ⟨rfl, rfl⟩
        exact hhas hb

theorem firstSeen_iff {script : Hash} {height : Int} :
    firstSeen chain script = some height ↔
      ∃ b rest, b :: rest <:+ chain ∧ script ∈ b.scripts ∧ firstSeen rest script = none ∧
        height = rest.length := by
  induction chain with
  | nil => simp [firstSeen]
  | cons c chain ih =>
      rw [firstSeen, Option.or_eq_some_iff, ih]
      constructor
      · rintro (⟨b, rest, hsuffix, hfirst⟩ | ⟨hnone, hhere⟩)
        · exact ⟨b, rest, suffix_cons_iff.mpr (Or.inr hsuffix), hfirst⟩
        · rw [Option.ite_none_right_eq_some, Option.some.injEq] at hhere
          exact ⟨c, chain, List.suffix_rfl, hhere.1, hnone, hhere.2.symm⟩
      · rintro ⟨b, rest, hsuffix, hscript, hnone, rfl⟩
        rcases suffix_cons_iff.mp hsuffix with ⟨rfl, rfl⟩ | hbelow
        · exact Or.inr ⟨hnone, by rw [if_pos hscript]⟩
        · exact Or.inl ⟨b, rest, hbelow, hscript, hnone, rfl⟩

/-- A block is in the window when its height is not below the window's lowest. -/
theorem ValidChain.mem_windowOf_iff (hvalid : ValidChain chain) (hsuffix : b :: rest <:+ chain)
    (depth : Nat) : b.hash ∈ windowOf chain depth ↔ chain.length - depth ≤ rest.length := by
  induction chain generalizing depth with
  | nil => cases List.suffix_nil.mp hsuffix
  | cons c chain ih =>
      cases depth with
      | zero =>
          have := hsuffix.length_le
          simp only [List.length_cons] at this
          simp
          omega
      | succ depth =>
          rw [windowOf_cons_succ, List.mem_cons, List.length_cons, Nat.add_sub_add_right]
          rcases suffix_cons_iff.mp hsuffix with ⟨rfl, rfl⟩ | hbelow
          · simp
          · have hne : b.hash ≠ c.hash :=
              hvalid.1.hash_fresh b (hbelow.subset List.mem_cons_self)
            rw [or_iff_right hne, ih hvalid.2 hbelow]

end Lookups

/-! ### The first record of each run -/

section FirstOfRuns

variable {ρ κ : Type} [DecidableEq κ] {key : ρ → κ}

theorem mem_of_mem_firstOfRuns {prev : Option κ} {records : List ρ} {record : ρ}
    (hmem : record ∈ firstOfRuns key prev records) : record ∈ records := by
  induction records generalizing prev with
  | nil => exact hmem
  | cons head rest ih =>
      rw [firstOfRuns] at hmem
      split at hmem
      · exact List.mem_cons_of_mem _ (ih hmem)
      · rcases List.mem_cons.mp hmem with rfl | hin
        · exact List.mem_cons_self
        · exact List.mem_cons_of_mem _ (ih hin)

/-- Every key keeps a record, the key before the list apart. -/
theorem exists_mem_firstOfRuns (key : ρ → κ) (prev : Option κ) {records : List ρ} {record : ρ}
    (hmem : record ∈ records) :
    prev = some (key record) ∨
      ∃ kept ∈ firstOfRuns key prev records, key kept = key record := by
  induction records generalizing prev with
  | nil => cases hmem
  | cons head rest ih =>
      rw [firstOfRuns]
      split
      · next hprev =>
          rcases List.mem_cons.mp hmem with rfl | hin
          · exact Or.inl hprev
          · exact ih _ hin
      · refine Or.inr ?_
        rcases List.mem_cons.mp hmem with rfl | hin
        · exact ⟨record, List.mem_cons_self, rfl⟩
        · rcases ih (some (key head)) hin with heq | ⟨kept, hkept, hkey⟩
          · exact ⟨head, List.mem_cons_self, Option.some.inj heq⟩
          · exact ⟨kept, List.mem_cons_of_mem _ hkept, hkey⟩

variable {rank : κ → Nat}

/-- In a list ordered by key, what comes after a run has a greater key. -/
theorem lt_of_mem_firstOfRuns (hinj : Function.Injective rank) {prev : κ} {records : List ρ}
    (hsorted : records.Pairwise fun a b => rank (key a) ≤ rank (key b))
    (habove : ∀ record ∈ records, rank prev ≤ rank (key record)) {record : ρ}
    (hmem : record ∈ firstOfRuns key (some prev) records) : rank prev < rank (key record) := by
  induction records generalizing prev with
  | nil => cases hmem
  | cons head rest ih =>
      have hhead := habove head List.mem_cons_self
      rw [firstOfRuns] at hmem
      split at hmem
      · exact ih hsorted.of_cons (fun r hr => habove r (List.mem_cons_of_mem _ hr)) hmem
      · next hne =>
          have hlt : rank prev < rank (key head) :=
            lt_of_le_of_ne hhead fun heq => hne (congrArg some (hinj heq))
          rcases List.mem_cons.mp hmem with rfl | hin
          · exact hlt
          · exact hlt.trans
              (ih hsorted.of_cons (fun r hr => List.rel_of_pairwise_cons hsorted hr) hin)

/-- **The record kept of a run is its first.** -/
theorem firstOfRuns_first (rank : κ → Nat) (hinj : Function.Injective rank) {rel : ρ → ρ → Prop}
    {prev : Option κ} {records : List ρ}
    (hsorted : records.Pairwise fun a b => rank (key a) ≤ rank (key b))
    (habove : ∀ p, prev = some p → ∀ record ∈ records, rank p ≤ rank (key record))
    (hrel : records.Pairwise rel) {record other : ρ}
    (hmem : record ∈ firstOfRuns key prev records) (hother : other ∈ records)
    (hkey : key other = key record) : record = other ∨ rel record other := by
  induction records generalizing prev with
  | nil => cases hother
  | cons head rest ih =>
      have hrest : ∀ r ∈ rest, rank (key head) ≤ rank (key r) := fun r hr =>
        List.rel_of_pairwise_cons hsorted hr
      -- Past the head's run every key is greater, so `other` is not the head.
      have hafter : record ∈ firstOfRuns key (some (key head)) rest →
          record = other ∨ rel record other := by
        intro hin
        have hlt := lt_of_mem_firstOfRuns hinj hsorted.of_cons hrest hin
        rcases List.mem_cons.mp hother with rfl | htail
        · rw [hkey] at hlt
          exact absurd hlt (lt_irrefl _)
        · refine ih hsorted.of_cons (fun p hp => ?_) hrel.of_cons hin htail
          obtain rfl := Option.some.inj hp
          exact hrest
      rw [firstOfRuns] at hmem
      split at hmem
      · next hprev => exact hafter (hprev ▸ hmem)
      · rcases List.mem_cons.mp hmem with rfl | hin
        · rcases List.mem_cons.mp hother with rfl | htail
          · exact Or.inl rfl
          · exact Or.inr (List.rel_of_pairwise_cons hrel htail)
        · exact hafter hin

end FirstOfRuns

/-! ### Records in the window -/

section Families

variable {chain rest : Chain} {b : Block} {p : Provenance} {undoBlocks : Nat}

/-- The recovery record of a block of the chain. -/
theorem ValidChain.windowRecord_eq_some (hvalid : ValidChain chain) {hash : Hash} {k : Key}
    {value : Value} :
    p.windowRecord chain (windowOf chain undoBlocks) hash k = some value ↔
      ∃ b rest, b :: rest <:+ chain ∧ b.hash = hash ∧ chain.length - undoBlocks ≤ rest.length ∧
        p.undoRecord b rest k = some value := by
  rw [windowRecord]
  constructor
  · intro hsome
    rw [Option.ite_none_right_eq_some, Option.bind_eq_some_iff] at hsome
    obtain ⟨hmem, ⟨b, rest⟩, hfound, hrecord⟩ := hsome
    obtain ⟨hsuffix, hhash⟩ := hvalid.blockAt_iff.mp hfound
    exact ⟨b, rest, hsuffix, hhash,
      (hvalid.mem_windowOf_iff hsuffix undoBlocks).mp (hhash ▸ hmem), hrecord⟩
  · rintro ⟨b, rest, hsuffix, hhash, hle, hrecord⟩
    rw [if_pos (hhash ▸ (hvalid.mem_windowOf_iff hsuffix undoBlocks).mpr hle),
      hvalid.blockAt_iff.mpr ⟨hsuffix, hhash⟩]
    exact hrecord

/-! ### Blocks and the window list -/

theorem mem_chainMeta {record : MetaRecord} :
    record ∈ chainMeta chain ↔
      ∃ b rest, b :: rest <:+ chain ∧ record = blockMeta b rest.length := by
  simp [chainMeta, mem_inHeightOrder]

theorem ValidChain.mem_blockRow (hvalid : ValidChain chain) {hash : Hash} {value : Value} :
    (Key.block hash, value) ∈ (chainMeta chain).map blockRow ↔
      p.record chain (windowOf chain undoBlocks) (.block hash) = some value := by
  rw [record, Option.map_eq_some_iff]
  simp only [List.mem_map, mem_chainMeta, Prod.exists, hvalid.blockAt_iff]
  constructor
  · rintro ⟨_, ⟨b, rest, hsuffix, rfl⟩, hrow⟩
    simp only [blockRow, blockMeta, Prod.mk.injEq, Key.block.injEq] at hrow
    exact ⟨b, rest, ⟨hsuffix, hrow.1⟩, hrow.2⟩
  · rintro ⟨b, rest, ⟨hsuffix, rfl⟩, rfl⟩
    exact ⟨_, ⟨b, rest, hsuffix, rfl⟩, rfl⟩

theorem pushWindow_drop (undoBlocks : Nat) (hashes : List Hash) (hash : Hash) :
    pushWindow undoBlocks (hashes.drop (hashes.length - undoBlocks)) hash =
      (hashes ++ [hash]).drop ((hashes ++ [hash]).length - undoBlocks) := by
  rw [List.length_append, List.length_singleton]
  by_cases hfull : undoBlocks ≤ hashes.length
  · have hone : hashes.length + 1 - undoBlocks = hashes.length - undoBlocks + 1 := by omega
    have hover : undoBlocks <
        (hashes.drop (hashes.length - undoBlocks) ++ [hash]).length := by
      simp only [List.length_append, List.length_drop, List.length_singleton]
      omega
    rw [pushWindow, if_pos hover, hone, ← List.tail_drop,
      List.drop_append_of_le_length (Nat.sub_le _ _)]
  · have hzero : hashes.length - undoBlocks = 0 := by omega
    have hzero' : hashes.length + 1 - undoBlocks = 0 := by omega
    rw [hzero, hzero', List.drop_zero, List.drop_zero, pushWindow, if_neg]
    simp only [List.length_append, List.length_singleton]
    omega

/-- The seeded window: the hashes of the newest blocks. -/
theorem nWindow_eq (blocks : List MetaRecord) :
    nWindow undoBlocks blocks =
      (blocks.map MetaRecord.blockHash).drop (blocks.length - undoBlocks) := by
  induction blocks using List.reverseRecOn with
  | nil => simp [nWindow]
  | append_singleton blocks blk ih =>
      rw [nWindow, List.foldl_append] at *
      rw [ih, List.foldl_cons, List.foldl_nil, List.map_append, List.map_singleton]
      have hpush := pushWindow_drop undoBlocks
        (blocks.map MetaRecord.blockHash) blk.blockHash
      simpa using hpush

theorem chainMeta_length : (chainMeta chain).length = chain.length := by
  induction chain with
  | nil => rfl
  | cons b rest ih =>
      rw [chainMeta, inHeightOrder, List.length_append, List.length_singleton, List.length_cons]
      exact congrArg (· + 1) ih

theorem chainMeta_blockHash :
    (chainMeta chain).map MetaRecord.blockHash = (chain.map Block.hash).reverse := by
  induction chain with
  | nil => rfl
  | cons b rest ih =>
      rw [chainMeta, inHeightOrder, List.map_append]
      exact (congrArg (· ++ [b.hash]) ih).trans (List.reverse_cons ..).symm

theorem nWindow_chainMeta :
    nWindow undoBlocks (chainMeta chain) = (windowOf chain undoBlocks).reverse := by
  rw [nWindow_eq, chainMeta_blockHash, chainMeta_length, windowOf, List.map_take,
    List.reverse_take, List.length_map]

theorem mem_storedBlkRow {hash : Hash} {value : Value} :
    (Key.storedBlk hash, value) ∈
        (nWindow undoBlocks (chainMeta chain)).map (fun hash => (Key.storedBlk hash, Value.empty)) ↔
      p.record chain (windowOf chain undoBlocks) (.storedBlk hash) = some value := by
  rw [record, Option.ite_none_right_eq_some, nWindow_chainMeta, List.mem_map]
  constructor
  · rintro ⟨hash', hmem, heq⟩
    simp only [Prod.mk.injEq, Key.storedBlk.injEq] at heq
    obtain ⟨rfl, rfl⟩ := heq
    exact ⟨List.mem_reverse.mp hmem, rfl⟩
  · rintro ⟨hmem, hvalue⟩
    exact ⟨hash, List.mem_reverse.mpr hmem, by rw [Option.some.inj hvalue]⟩

/-! ### Unspent outputs -/

section Coins

variable {emitted : List OutputsRecord}
  (hemitted : ∀ record, record ∈ emitted ↔
    record ∈ chainOutputs chain ∧ utxo chain record.outPoint = some record.newOutput)

include hemitted

theorem ValidChain.exists_emitted (hvalid : ValidChain chain) {o : OutPoint} {out : NewOutput}
    (hutxo : utxo chain o = some out) :
    ∃ record ∈ emitted, record.outPoint = o ∧ record.newOutput = out := by
  obtain ⟨record, hmem, rfl, rfl⟩ := hvalid.outputs_of_everCreated (everCreated_of_utxo hutxo)
  exact ⟨record, (hemitted record).mpr ⟨hmem, hutxo⟩, rfl, rfl⟩

theorem ValidChain.mem_hintRow (hvalid : ValidChain chain) (hlost : p.lost = ∅) {txid : Hash}
    {idx : Nat} {value : Value} :
    (Key.outHint txid idx, value) ∈ emitted.map hintRow ↔
      p.record chain (windowOf chain undoBlocks) (.outHint txid idx) = some value := by
  have hcoins : p.coins chain ⟨txid, idx⟩ = utxo chain ⟨txid, idx⟩ := by simp [coins, hlost]
  rw [record, hcoins, hintValue, Option.map_eq_some_iff, List.mem_map]
  constructor
  · rintro ⟨record, hmem, hrow⟩
    simp only [hintRow, Prod.mk.injEq, Key.outHint.injEq] at hrow
    obtain ⟨⟨rfl, rfl⟩, rfl⟩ := hrow
    exact ⟨record.newOutput, ((hemitted record).mp hmem).2, rfl⟩
  · rintro ⟨out, hout, rfl⟩
    obtain ⟨record, hmem, hpoint, rfl⟩ := hvalid.exists_emitted hemitted hout
    obtain ⟨rfl, rfl⟩ := OutPoint.mk.inj hpoint
    exact ⟨record, hmem, rfl⟩

theorem ValidChain.mem_outputRow (hvalid : ValidChain chain) (hlost : p.lost = ∅)
    {script txid : Hash} {idx : Nat} {value : Value} :
    (Key.output script txid idx, value) ∈ (emitted.map outputRow).map loadOutputRow ↔
      p.record chain (windowOf chain undoBlocks) (.output script txid idx) = some value := by
  have hcoins : p.coins chain ⟨txid, idx⟩ = utxo chain ⟨txid, idx⟩ := by simp [coins, hlost]
  rw [record, hcoins, outputValue_eq_some, List.map_map, List.mem_map]
  constructor
  · rintro ⟨record, hmem, hrow⟩
    simp only [Function.comp_apply, loadOutputRow, outputRow, Prod.mk.injEq,
      Key.output.injEq] at hrow
    obtain ⟨⟨rfl, rfl, rfl⟩, rfl⟩ := hrow
    exact ⟨record.newOutput, ((hemitted record).mp hmem).2, rfl, rfl⟩
  · rintro ⟨out, hout, rfl, rfl⟩
    obtain ⟨record, hmem, hpoint, rfl⟩ := hvalid.exists_emitted hemitted hout
    obtain ⟨rfl, rfl⟩ := OutPoint.mk.inj hpoint
    exact ⟨record, hmem, rfl⟩

end Coins

/-! ### Created outputs and the tx index -/

theorem ValidChain.mem_outBlkRow (hvalid : ValidChain chain) {hash txid : Hash} {idx : Nat}
    {value : Value} :
    (Key.outBlk hash txid idx, value) ∈
        ((chainOutputs chain).filter fun record =>
          chain.length - undoBlocks ≤ record.height).map outBlkRow ↔
      p.record chain (windowOf chain undoBlocks) (.outBlk hash txid idx) = some value := by
  rw [record, hvalid.windowRecord_eq_some]
  simp only [List.mem_map, List.mem_filter, hvalid.mem_outputs, decide_eq_true_eq, undoRecord,
    hintValue, Option.map_eq_some_iff]
  constructor
  · rintro ⟨record, ⟨⟨b, rest, hsuffix, hhash, hheight, hcreated⟩, hle⟩, hrow⟩
    simp only [outBlkRow, Prod.mk.injEq, Key.outBlk.injEq] at hrow
    obtain ⟨⟨rfl, rfl, rfl⟩, rfl⟩ := hrow
    exact ⟨b, rest, hsuffix, hhash.symm, hheight ▸ hle, record.newOutput, hcreated, rfl⟩
  · rintro ⟨b, rest, hsuffix, rfl, hle, out, hcreated, rfl⟩
    obtain ⟨record, hmem, hpoint, rfl, hhash, hheight⟩ :=
      hvalid.outputs_of_created hsuffix hcreated
    obtain ⟨rfl, rfl⟩ := OutPoint.mk.inj hpoint
    exact ⟨record, ⟨hvalid.mem_outputs.mp hmem, hheight ▸ hle⟩, by rw [outBlkRow, hhash]; rfl⟩

/-- A transaction of the chain, read off one of its outputs. -/
theorem ValidChain.mem_firsts (hvalid : ValidChain chain) {txid hash : Hash} {height : Nat} :
    (∃ record ∈ firstOfRuns OutputsRecord.txid none (chainOutputs chain),
        record.txid = txid ∧ record.blockHash = hash ∧ record.height = height) ↔
      ∃ b rest, b :: rest <:+ chain ∧ b.hasTx txid = true ∧ b.hash = hash ∧
        rest.length = height := by
  constructor
  · rintro ⟨record, hmem, rfl, rfl, rfl⟩
    obtain ⟨b, rest, hsuffix, hhash, hheight, hcreated⟩ :=
      hvalid.mem_outputs.mp (mem_of_mem_firstOfRuns hmem)
    exact ⟨b, rest, hsuffix, Block.hasTx_of_created (by rw [hcreated]; rfl),
      hhash.symm, hheight.symm⟩
  · rintro ⟨b, rest, hsuffix, hhas, rfl, rfl⟩
    obtain ⟨out, hcreated⟩ := Option.isSome_iff_exists.mp
      ((hvalid.block_of_suffix hsuffix).created_zero hhas rest.length)
    obtain ⟨record, hmem, hpoint, -⟩ := hvalid.outputs_of_created hsuffix hcreated
    have htxid : record.txid = txid := congrArg OutPoint.txid hpoint
    rcases exists_mem_firstOfRuns OutputsRecord.txid none hmem with
      hnone | ⟨kept, hkept, hkey⟩
    · cases hnone
    -- All outputs of a transaction are in its block.
    obtain ⟨b', rest', hsuffix', hhash', hheight', hcreated'⟩ :=
      hvalid.mem_outputs.mp (mem_of_mem_firstOfRuns hkept)
    have hhas' : b'.hasTx txid = true := by
      have hhas' := Block.hasTx_of_created (by rw [hcreated']; rfl)
      rwa [OutputsRecord.outPoint, hkey, htxid] at hhas'
    have hsame := (hvalid.txBlock_iff.mpr ⟨hsuffix, hhas⟩).symm.trans
      (hvalid.txBlock_iff.mpr ⟨hsuffix', hhas'⟩)
    simp only [Option.some.injEq, Prod.mk.injEq] at hsame
    obtain ⟨rfl, rfl⟩ := hsame
    exact ⟨kept, hkept, hkey.trans htxid, hhash', hheight'⟩

/-- `T` and `X`: one row for each transaction, with the block it is in. -/
theorem ValidChain.mem_txRows (hvalid : ValidChain chain) (hindex : p.txIndex = true)
    {key : Hash → Key} (hinj : Function.Injective key) (value : Hash → Hash → Value) {txid : Hash}
    {v : Value} :
    (key txid, v) ∈ (firstOfRuns OutputsRecord.txid none (chainOutputs chain)).map
        (fun record => (key record.txid, value record.blockHash record.txid)) ↔
      ((txBlock chain txid).bind fun found =>
        if p.indexed found.2.length then some (value found.1.hash txid) else none) = some v := by
  have hindexed : ∀ height, p.indexed height = true := by simp [indexed, hindex]
  rw [Option.bind_eq_some_iff, List.mem_map]
  simp only [Prod.exists, hvalid.txBlock_iff, hindexed, if_true, Option.some.injEq]
  constructor
  · rintro ⟨record, hmem, hrow⟩
    obtain ⟨hkey, rfl⟩ := Prod.mk.inj hrow
    obtain rfl := hinj hkey
    obtain ⟨b, rest, hsuffix, hhas, hhash, -⟩ := hvalid.mem_firsts.mp ⟨record, hmem, rfl, rfl, rfl⟩
    exact ⟨b, rest, ⟨hsuffix, hhas⟩, by rw [hhash]⟩
  · rintro ⟨b, rest, ⟨hsuffix, hhas⟩, rfl⟩
    obtain ⟨record, hmem, rfl, hhash, -⟩ :=
      hvalid.mem_firsts.mpr ⟨b, rest, hsuffix, hhas, rfl, rfl⟩
    exact ⟨record, hmem, by rw [hhash]⟩

theorem ValidChain.mem_txRow (hvalid : ValidChain chain) (hindex : p.txIndex = true) {txid : Hash}
    {value : Value} :
    (Key.tx txid, value) ∈
        ((firstOfRuns OutputsRecord.txid none (chainOutputs chain)).map txRow).map loadTxRow ↔
      p.record chain (windowOf chain undoBlocks) (.tx txid) = some value := by
  rw [List.map_map]
  exact hvalid.mem_txRows hindex (fun _ _ => Key.tx.inj) Value.txRecord

theorem ValidChain.mem_txExactRow (hvalid : ValidChain chain) (hindex : p.txIndex = true)
    {txid : Hash} {value : Value} :
    (Key.txExact txid, value) ∈
        (firstOfRuns OutputsRecord.txid none (chainOutputs chain)).map txExactRow ↔
      p.record chain (windowOf chain undoBlocks) (.txExact txid) = some value :=
  hvalid.mem_txRows hindex (fun _ _ => Key.txExact.inj) fun hash _ => .hash hash

theorem ValidChain.mem_txBlockRecoveryRow (hvalid : ValidChain chain) (hindex : p.txIndex = true)
    {hash txid : Hash} {value : Value} :
    (Key.txBlockRecovery hash txid, value) ∈
        ((firstOfRuns OutputsRecord.txid none (chainOutputs chain)).filter fun record =>
          chain.length - undoBlocks ≤ record.height).map txBlockRecoveryRow ↔
      p.record chain (windowOf chain undoBlocks) (.txBlockRecovery hash txid) = some value := by
  have hindexed : ∀ height, p.indexed height = true := by simp [indexed, hindex]
  rw [record, hvalid.windowRecord_eq_some]
  simp only [List.mem_map, List.mem_filter, decide_eq_true_eq, undoRecord, hindexed, and_true,
    Option.ite_none_right_eq_some, Option.some.injEq]
  constructor
  · rintro ⟨record, ⟨hmem, hle⟩, hrow⟩
    simp only [txBlockRecoveryRow, Prod.mk.injEq, Key.txBlockRecovery.injEq] at hrow
    obtain ⟨⟨rfl, rfl⟩, rfl⟩ := hrow
    obtain ⟨b, rest, hsuffix, hhas, hhash, hheight⟩ :=
      hvalid.mem_firsts.mp ⟨record, hmem, rfl, rfl, rfl⟩
    exact ⟨b, rest, hsuffix, hhash, hheight ▸ hle, hhas, rfl⟩
  · rintro ⟨b, rest, hsuffix, rfl, hle, hhas, rfl⟩
    obtain ⟨record, hmem, rfl, hhash, hheight⟩ :=
      hvalid.mem_firsts.mpr ⟨b, rest, hsuffix, hhas, rfl, rfl⟩
    exact ⟨record, ⟨hmem, hheight ▸ hle⟩, by rw [← hhash]; rfl⟩

/-! ### First-seen scripts -/

theorem Block.mem_scripts_iff {b : Block} (hnodup : (b.transactions.map Tx.id).Nodup)
    {script : Hash} (height : Int) :
    script ∈ b.scripts ↔ ∃ o out, b.created height o = some out ∧ out.scriptPubKey = script := by
  rw [Block.scripts, List.mem_flatMap]
  constructor
  · rintro ⟨tx, htx, hmem⟩
    obtain ⟨output, houtput, rfl⟩ := List.mem_map.mp hmem
    obtain ⟨i, hi, rfl⟩ := List.mem_iff_getElem.mp houtput
    have hcreated := Block.created_of_mem hnodup htx height i
    rw [newOutputs_getElem?, List.getElem?_eq_getElem hi, Option.map_some] at hcreated
    exact ⟨_, _, hcreated, rfl⟩
  · rintro ⟨o, out, hcreated, rfl⟩
    obtain ⟨tx, htx, -, hget⟩ := Block.created_eq_some hcreated
    rw [newOutputs_getElem?, Option.map_eq_some_iff] at hget
    obtain ⟨output, houtput, rfl⟩ := hget
    exact ⟨tx, htx, List.mem_map_of_mem (List.mem_of_getElem? houtput)⟩

/-- The stream is in height order. -/
theorem ValidChain.outputs_height_sorted (hvalid : ValidChain chain) :
    (chainOutputs chain).Pairwise fun a b => a.height ≤ b.height := by
  induction chain with
  | nil => exact List.Pairwise.nil
  | cons b rest ih =>
      have hblock : ∀ r ∈ blockOutputs b rest.length, r.height = rest.length := fun r hr =>
        ((mem_blockOutputs hvalid.1.ids_nodup).mp hr).2.1
      rw [chainOutputs, inHeightOrder, List.pairwise_append]
      refine ⟨ih hvalid.2, List.pairwise_of_forall_mem_list fun r hr r' hr' => ?_, fun r hr r' hr' => ?_⟩
      · rw [hblock r hr, hblock r' hr']
      · obtain ⟨c, below, hsuffix, -, hheight, -⟩ := hvalid.2.mem_outputs.mp hr
        have hlength := hsuffix.length_le
        rw [List.length_cons] at hlength
        rw [hblock r' hr', hheight]
        omega

theorem mem_scriptCandidates {outputs : List OutputsRecord} {candidate : ScriptCandidate} :
    candidate ∈ scriptCandidates outputs ↔
      ∃ record, outputs[candidate.rowId]? = some record ∧
        candidate = ⟨record.scriptPubKey, candidate.rowId, record.blockHash, record.height⟩ := by
  simp only [scriptCandidates, List.mem_mapIdx]
  constructor
  · rintro ⟨i, hi, rfl⟩
    exact ⟨outputs[i], List.getElem?_eq_getElem hi, rfl⟩
  · rintro ⟨record, hget, heq⟩
    obtain ⟨hi, rfl⟩ := List.getElem?_eq_some_iff.mp hget
    exact ⟨candidate.rowId, hi, heq.symm⟩

/-- The candidates left after sorting and dropping the later sightings. -/
def firstSeenCandidates (ramBudgetBytes : Nat) (outputs : List OutputsRecord) :
    List ScriptCandidate :=
  firstOfRuns ScriptCandidate.scriptHash none
    (sortBy ramBudgetBytes 72 ScriptCandidate.key (scriptCandidates outputs))

theorem ScriptCandidate.key_le {c d : ScriptCandidate} (hle : c.key ≤ d.key) :
    c.scriptHash.toNat ≤ d.scriptHash.toNat ∧ (c.scriptHash = d.scriptHash → c.rowId ≤ d.rowId) := by
  rw [le_iff_lt_or_eq, ScriptCandidate.key, ScriptCandidate.key, List.cons_lt_cons_iff,
    List.cons_lt_cons_iff] at hle
  simp only [List.cons.injEq, and_true, List.not_lt_nil, and_false, or_false,
    BitVec.toNat_inj] at hle
  rcases hle with (hlt | ⟨heq, hlt⟩) | ⟨heq, hrow⟩
  · exact ⟨hlt.le, fun heq => absurd (heq ▸ hlt) (lt_irrefl _)⟩
  · exact ⟨by rw [heq], fun _ => hlt.le⟩
  · exact ⟨by rw [heq], fun _ => hrow.le⟩

/-- A kept candidate is the earliest of its script. -/
theorem firstSeenCandidates_first {ram : Nat} {outputs : List OutputsRecord}
    {candidate other : ScriptCandidate} (hmem : candidate ∈ firstSeenCandidates ram outputs)
    (hother : other ∈ scriptCandidates outputs) (hscript : other.scriptHash = candidate.scriptHash) :
    candidate.rowId ≤ other.rowId := by
  have hsorted : (sortBy ram 72 ScriptCandidate.key (scriptCandidates outputs)).Pairwise
      fun a b => a.key ≤ b.key := sortBy_sorted _ _ _
  rcases firstOfRuns_first BitVec.toNat (fun _ _ => BitVec.eq_of_toNat_eq)
      (hsorted.imp fun hle => (ScriptCandidate.key_le hle).1) (by simp) hsorted hmem
      ((mem_sortBy _ _ _).mpr hother) hscript with rfl | hle
  · exact le_rfl
  · exact (ScriptCandidate.key_le hle).2 hscript.symm

/-- **The kept candidates** are the blocks in which each script was first seen. -/
theorem ValidChain.mem_firstSeenCandidates (hvalid : ValidChain chain) (ram : Nat)
    {script hash : Hash} {height : Nat} :
    (∃ candidate ∈ firstSeenCandidates ram (chainOutputs chain),
        candidate.scriptHash = script ∧ candidate.blockHash = hash ∧ candidate.height = height) ↔
      ∃ b rest, b :: rest <:+ chain ∧ script ∈ b.scripts ∧ firstSeen rest script = none ∧
        b.hash = hash ∧ rest.length = height := by
  -- A kept candidate sits in the block that first carries its script.
  have hkept : ∀ candidate ∈ firstSeenCandidates ram (chainOutputs chain),
      ∃ b rest, b :: rest <:+ chain ∧ candidate.scriptHash ∈ b.scripts ∧
        firstSeen rest candidate.scriptHash = none ∧ candidate.blockHash = b.hash ∧
        candidate.height = rest.length := by
    intro candidate hmem
    obtain ⟨record, hget, heq⟩ :=
      mem_scriptCandidates.mp ((mem_sortBy _ _ _).mp (mem_of_mem_firstOfRuns hmem))
    have hscript : candidate.scriptHash = record.scriptPubKey := by rw [heq]
    obtain ⟨b, rest, hsuffix, hhash, hheight, hcreated⟩ :=
      hvalid.mem_outputs.mp (List.mem_of_getElem? hget)
    have hnodup := (hvalid.block_of_suffix hsuffix).ids_nodup
    refine ⟨b, rest, hsuffix, (Block.mem_scripts_iff hnodup rest.length).mpr
      ⟨_, _, hcreated, hscript.symm⟩, ?_, by rw [heq, hhash], by rw [heq, hheight]⟩
    by_contra hseen
    obtain ⟨height', hsome⟩ := Option.ne_none_iff_exists'.mp hseen
    obtain ⟨c, below, hbelow, hmemScript, -, -⟩ := firstSeen_iff.mp hsome
    have hsuffix' : c :: below <:+ chain := hbelow.trans ((List.suffix_cons b rest).trans hsuffix)
    obtain ⟨o, out, hcreated', hout⟩ :=
      (Block.mem_scripts_iff (hvalid.block_of_suffix hsuffix').ids_nodup below.length).mp hmemScript
    obtain ⟨record', hrecord', -, rfl, -, hheight'⟩ := hvalid.outputs_of_created hsuffix' hcreated'
    obtain ⟨i, hi, hgetElem⟩ := List.mem_iff_getElem.mp hrecord'
    have hother : (⟨record'.scriptPubKey, i, record'.blockHash, record'.height⟩ :
        ScriptCandidate) ∈ scriptCandidates (chainOutputs chain) :=
      mem_scriptCandidates.mpr ⟨record', List.getElem?_eq_some_iff.mpr ⟨hi, hgetElem⟩, rfl⟩
    have hle := firstSeenCandidates_first hmem hother (by exact hout)
    have hsorted := hvalid.outputs_height_sorted
    obtain ⟨hj, hgetElem'⟩ := List.getElem?_eq_some_iff.mp hget
    have hlength := hbelow.length_le
    rw [List.length_cons] at hlength
    rcases hle.eq_or_lt with hsame | hlt
    · have heqRecord : record = record' := by
        rw [← hgetElem', ← hgetElem]
        exact getElem_congr_idx hsame
      rw [heqRecord, hheight'] at hheight
      omega
    · have := List.pairwise_iff_getElem.mp hsorted _ _ hj hi hlt
      rw [hgetElem', hgetElem, hheight, hheight'] at this
      omega
  constructor
  · rintro ⟨candidate, hmem, rfl, rfl, rfl⟩
    obtain ⟨b, rest, hsuffix, hscript, hnone, hhash, hheight⟩ := hkept candidate hmem
    exact ⟨b, rest, hsuffix, hscript, hnone, hhash.symm, hheight.symm⟩
  · rintro ⟨b, rest, hsuffix, hscript, hnone, rfl, rfl⟩
    obtain ⟨o, out, hcreated, rfl⟩ :=
      (Block.mem_scripts_iff (hvalid.block_of_suffix hsuffix).ids_nodup rest.length).mp hscript
    obtain ⟨record, hmem, -, rfl, -⟩ := hvalid.outputs_of_created hsuffix hcreated
    obtain ⟨i, hi, hgetElem⟩ := List.mem_iff_getElem.mp hmem
    have hcandidate : (⟨record.scriptPubKey, i, record.blockHash, record.height⟩ :
        ScriptCandidate) ∈ sortBy ram 72 ScriptCandidate.key
          (scriptCandidates (chainOutputs chain)) :=
      (mem_sortBy _ _ _).mpr
        (mem_scriptCandidates.mpr ⟨record, List.getElem?_eq_some_iff.mpr ⟨hi, hgetElem⟩, rfl⟩)
    rcases exists_mem_firstOfRuns ScriptCandidate.scriptHash none hcandidate with
      hprev | ⟨kept, hmemKept, hkey⟩
    · cases hprev
    obtain ⟨b', rest', hsuffix', hscript', hnone', hhash', hheight'⟩ := hkept kept hmemKept
    rw [hkey] at hscript' hnone'
    have hfirst : firstSeen chain record.scriptPubKey = some rest.length :=
      firstSeen_iff.mpr ⟨b, rest, hsuffix, hscript, hnone, rfl⟩
    have hfirst' : firstSeen chain record.scriptPubKey = some rest'.length :=
      firstSeen_iff.mpr ⟨b', rest', hsuffix', hscript', hnone', rfl⟩
    have hlength : rest.length = rest'.length := by
      exact_mod_cast Option.some.inj (hfirst.symm.trans hfirst')
    have hsame : b :: rest = b' :: rest' :=
      (List.suffix_of_suffix_length_le hsuffix hsuffix' (by simp [hlength])).eq_of_length
        (by simp [hlength])
    obtain ⟨rfl, rfl⟩ := List.cons.inj hsame
    exact ⟨kept, hmemKept, hkey, hhash', hheight'⟩

theorem ValidChain.mem_scriptRow (hvalid : ValidChain chain) (ram : Nat) {script : Hash}
    {value : Value} :
    (Key.scriptBlk script, value) ∈
        (firstSeenCandidates ram (chainOutputs chain)).map scriptRow ↔
      p.record chain (windowOf chain undoBlocks) (.scriptBlk script) = some value := by
  rw [record, Option.map_eq_some_iff, List.mem_map]
  simp only [firstSeen_iff]
  constructor
  · rintro ⟨candidate, hmem, hrow⟩
    simp only [scriptRow, Prod.mk.injEq, Key.scriptBlk.injEq] at hrow
    obtain ⟨rfl, rfl⟩ := hrow
    obtain ⟨b, rest, hsuffix, hscript, hnone, -, hheight⟩ :=
      (hvalid.mem_firstSeenCandidates ram).mp ⟨candidate, hmem, rfl, rfl, rfl⟩
    exact ⟨rest.length, ⟨b, rest, hsuffix, hscript, hnone, rfl⟩, by rw [hheight]⟩
  · rintro ⟨_, ⟨b, rest, hsuffix, hscript, hnone, rfl⟩, rfl⟩
    obtain ⟨candidate, hmem, rfl, -, hheight⟩ :=
      (hvalid.mem_firstSeenCandidates ram).mpr ⟨b, rest, hsuffix, hscript, hnone, rfl, rfl⟩
    exact ⟨candidate, hmem, by rw [scriptRow, hheight]⟩

theorem ValidChain.mem_blkScriptRow (hvalid : ValidChain chain) (ram : Nat) {hash script : Hash}
    {value : Value} :
    (Key.blkScript hash script, value) ∈
        ((firstSeenCandidates ram (chainOutputs chain)).filter fun candidate =>
          chain.length - undoBlocks ≤ candidate.height).map blkScriptRow ↔
      p.record chain (windowOf chain undoBlocks) (.blkScript hash script) = some value := by
  rw [record, hvalid.windowRecord_eq_some]
  simp only [List.mem_map, List.mem_filter, decide_eq_true_eq, undoRecord,
    Option.ite_none_right_eq_some, Option.some.injEq]
  constructor
  · rintro ⟨candidate, ⟨hmem, hle⟩, hrow⟩
    simp only [blkScriptRow, Prod.mk.injEq, Key.blkScript.injEq] at hrow
    obtain ⟨⟨rfl, rfl⟩, rfl⟩ := hrow
    obtain ⟨b, rest, hsuffix, hscript, hnone, hhash, hheight⟩ :=
      (hvalid.mem_firstSeenCandidates ram).mp ⟨candidate, hmem, rfl, rfl, rfl⟩
    exact ⟨b, rest, hsuffix, hhash, hheight ▸ hle, ⟨hscript, hnone⟩, rfl⟩
  · rintro ⟨b, rest, hsuffix, rfl, hle, ⟨hscript, hnone⟩, rfl⟩
    obtain ⟨candidate, hmem, rfl, hhash, hheight⟩ :=
      (hvalid.mem_firstSeenCandidates ram).mpr ⟨b, rest, hsuffix, hscript, hnone, rfl, rfl⟩
    exact ⟨candidate, ⟨hmem, hheight ▸ hle⟩, by rw [blkScriptRow, hhash]⟩

end Families

end UtxoTracker

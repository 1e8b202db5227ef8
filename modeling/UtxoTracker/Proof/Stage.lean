import UtxoTracker.Proof.Spend
/-!
# Staging a block

The invariant of the open batch: laid over the database, it reads as the reference record of the
chain the batch ends at. Staging a valid block never fails and keeps it.
-/

namespace UtxoTracker

open KeyedStore LevelUpStore Provenance

/-- The side conditions on where a store came from. -/
structure Provenance.Fits (p : Provenance) (chain : Chain) (window : List Hash) : Prop where
  seeded_le : p.seeded ≤ chain.length
  lost_created : ∀ o ∈ p.lost, ∃ out, everCreated chain o = some out ∧ out.height < p.seeded
  window_sub : ∀ hash ∈ window, hash ∈ chain.map Block.hash

/-- The open batch `σ` on a database that indexes `durable`, with the blocks above it up to `full`
staged. -/
structure StagedInv (p : Provenance) (durable full : Chain) (window : List Hash)
    (σ : LevelUpStore) : Prop where
  isOpen : σ.Open
  suffix : durable <:+ full
  effective : ∀ k : Key, k.isMeta = false → σ.effective k = p.record full window k
  coins : CoinView σ.staged σ.db (p.coins full) (p.coins durable)
  del_coin : ∀ k, σ.staged k = some .del → ∃ txid idx, utxo full ⟨txid, idx⟩ = none ∧
    (everCreated full ⟨txid, idx⟩).isSome ∧
      (k = .outHint txid idx ∨ ∃ script, k = .output script txid idx)
  known : ∀ s ∈ σ.knownScripts, (firstSeen full s).isSome
  cache : CacheInv σ full []

/-! ### The reference record of a longer chain -/

section Cons

variable {p : Provenance} {full : Chain} {window : List Hash} {b : Block}

theorem coins_cons (hfits : p.Fits full window) (hvalid : ValidBlock full b) (o : OutPoint) :
    p.coins (b :: full) o =
      if o ∈ b.spent then none else (b.created full.length o).or (p.coins full o) := by
  unfold coins
  by_cases hlost : o ∈ p.lost
  · have hcreated : b.created full.length o = none := by
      cases hout : b.created full.length o with
      | none => rfl
      | some out =>
          have hnone := hvalid.fresh (Option.isSome_of_eq_some hout)
          obtain ⟨out', hsome, -⟩ := hfits.lost_created o hlost
          rw [hnone] at hsome
          cases hsome
    simp [hlost, hcreated]
  · rw [if_neg hlost, if_neg hlost, utxo_cons]
    rfl

theorem archived_live (hfits : p.Fits full window) (o : OutPoint) :
    p.archived b full o = if o ∈ b.spent then p.coins full o else none := by
  have hlive : ¬ full.length < p.seeded := by
    have := hfits.seeded_le
    omega
  rw [archived, if_neg hlive]
  rfl

theorem indexed_live (hfits : p.Fits full window) : p.indexed full.length = true := by
  simp [indexed, hfits.seeded_le]

theorem window_fresh (hfits : p.Fits full window) (hvalid : ValidBlock full b) :
    b.hash ∉ window := by
  intro hmem
  obtain ⟨c, hc, heq⟩ := List.mem_map.mp (hfits.window_sub _ hmem)
  exact hvalid.hash_fresh c hc heq

theorem windowRecord_cons (hash : Hash) (k : Key) :
    p.windowRecord (b :: full) (b.hash :: window) hash k =
      if hash = b.hash then p.undoRecord b full k else p.windowRecord full window hash k := by
  by_cases hhash : hash = b.hash
  · subst hhash
    simp [windowRecord, blockAt_cons]
  · have hhash' : ¬ b.hash = hash := fun h => hhash h.symm
    simp [windowRecord, blockAt_cons, hhash, hhash']

theorem windowRecord_fresh (hfits : p.Fits full window) (hvalid : ValidBlock full b) (k : Key) :
    p.windowRecord full window b.hash k = none :=
  if_neg (window_fresh hfits hvalid)

theorem coins_eq_none_of_everCreated {chain : Chain} {o : OutPoint}
    (hnone : everCreated chain o = none) : p.coins chain o = none := by
  unfold coins
  split
  · rfl
  · exact utxo_eq_none_of_everCreated hnone

theorem everCreated_of_coins {chain : Chain} {o : OutPoint} {out : NewOutput}
    (hcoin : p.coins chain o = some out) : everCreated chain o = some out := by
  unfold coins at hcoin
  split at hcoin
  · cases hcoin
  · exact everCreated_of_utxo hcoin

/-- The coins a block sees before its own spends. -/
def coinsBefore (p : Provenance) (full : Chain) (b : Block) (o : OutPoint) : Option NewOutput :=
  (b.created full.length o).or (p.coins full o)

theorem everCreated_suffix {durable : Chain} (hsuffix : durable <:+ full) {o : OutPoint}
    (hnone : everCreated full o = none) : everCreated durable o = none := by
  obtain ⟨above, rfl⟩ := hsuffix
  induction above with
  | nil => exact hnone
  | cons c rest ih =>
      rw [List.cons_append, everCreated_cons, Option.or_eq_none_iff] at hnone
      exact ih hnone.2

/-- The recovery records a spend stages are those of the coin the chain held below the block. -/
theorem keptCoin_eq {durable : Chain} (hvalid : ValidBlock full b) (hsuffix : durable <:+ full)
    (o : OutPoint) :
    keptCoin full.length (coinsBefore p full b) (p.coins durable) o = p.coins full o := by
  unfold keptCoin coinsBefore
  cases hcreated : b.created full.length o with
  | some out =>
      have hnone : everCreated full o = none :=
        hvalid.fresh (Option.isSome_of_eq_some hcreated)
      have hheight : out.height = full.length := (Block.created_fields hcreated).2
      rw [coins_eq_none_of_everCreated hnone,
        coins_eq_none_of_everCreated (everCreated_suffix hsuffix hnone)]
      simp [hheight]
  | none =>
      rw [Option.none_or]
      cases hcoin : p.coins full o with
      | none => rfl
      | some out =>
          obtain ⟨-, hlow, hhigh⟩ := everCreated_fields (everCreated_of_coins hcoin)
          simp [hlow, hhigh]

end Cons

/-! ### The state between the two passes -/

section Stage

variable {p : Provenance} {durable full : Chain} {window : List Hash} {σ : LevelUpStore} {b : Block}

/-- The block record a block stages first. -/
def Block.record (b : Block) (height : Int) : Value := .block ⟨height, b.timestamp, b.prevHash⟩

/-- What the first pass hands to the second. -/
structure AfterOutputs (p : Provenance) (durable full : Chain) (b : Block)
    (σ σ₂ : LevelUpStore) : Prop where
  isOpen : σ₂.Open
  db : σ₂.db = σ.db
  staged : ∀ k : Key, k.isScript = false → σ₂.staged k =
    putOr (b.firstPassValue full.length k)
      (if .block b.hash = k then some (.put (b.record full.length)) else σ.staged k)
  scripts : ScriptInv σ.staged σ₂ full b.hash full.length b.scripts
  cache : CacheInv σ₂ (b :: full) []
  coins : CoinView σ₂.staged σ₂.db (coinsBefore p full b) (p.coins durable)

/-- Before the block, the batch has no trace of its script records. -/
theorem StagedInv.scriptInv (hinv : StagedInv p durable full window σ)
    (hfits : p.Fits full window) (hvalid : ValidBlock full b) :
    ScriptInv σ.staged σ full b.hash full.length [] where
  firstSeen := by
    intro s
    rw [hinv.effective _ rfl]
    simp [record]
  no_del := by
    intro s hdel
    obtain ⟨txid, idx, -, -, hkey | ⟨script, hkey⟩⟩ := hinv.del_coin _ hdel <;> cases hkey
  known := by
    intro s hs
    rw [hinv.effective _ rfl, record, Option.isSome_map]
    exact hinv.known s hs
  own := by
    intro s
    have hnone : σ.effective (.blkScript b.hash s) = none := by
      rw [hinv.effective _ rfl]
      exact windowRecord_fresh hfits hvalid _
    rw [if_neg (by simp)]
    cases hop : σ.staged (.blkScript b.hash s) with
    | none => rfl
    | some op =>
        cases op with
        | put value => simp [LevelUpStore.effective, hop] at hnone
        | del =>
            obtain ⟨txid, idx, -, -, hkey | ⟨script, hkey⟩⟩ := hinv.del_coin _ hop <;> cases hkey
  other := fun _ _ _ => rfl

/-- The cached outputs after the first pass belong to the longer chain. -/
theorem CacheInv.finish (hvalid : ValidBlock full b)
    (hcache : CacheInv σ full (b.transactions.flatMap (newOutputs · full.length))) :
    CacheInv σ (b :: full) [] := by
  intro o record hget
  refine Or.inr ⟨fun out hout => (by cases hout), fun out hever => ?_⟩
  rw [everCreated_cons] at hever
  rcases hcache o record hget with ⟨out', hmem, rfl, rfl⟩ | ⟨hother, hchain⟩
  · rw [(mem_outputs_iff hvalid.ids_nodup).mp hmem, Option.some_or, Option.some.injEq] at hever
    rw [hever]
  · cases hcreated : b.created full.length o with
    | none =>
        rw [hcreated, Option.none_or] at hever
        exact hchain out hever
    | some out' =>
        have ho := (Block.created_fields hcreated).1
        have hmem := (mem_outputs_iff hvalid.ids_nodup).mpr (ho.symm ▸ hcreated)
        exact absurd ho (hother out' hmem)

/-- The coins a reader of the batch sees between the passes. -/
theorem AfterOutputs.coinView {σ₂ : LevelUpStore} (hinv : StagedInv p durable full window σ)
    (hvalid : ValidBlock full b) (hdb : σ₂.db = σ.db)
    (hstaged : ∀ k : Key, k.isScript = false → σ₂.staged k =
      putOr (b.firstPassValue full.length k)
        (if .block b.hash = k then some (.put (b.record full.length)) else σ.staged k)) :
    CoinView σ₂.staged σ₂.db (coinsBefore p full b) (p.coins durable) := by
  have hfresh : ∀ o, (b.created full.length o).isSome → p.coins durable o = none :=
    fun o hcreated => coins_eq_none_of_everCreated
      (everCreated_suffix hinv.suffix (hvalid.fresh hcreated))
  refine ⟨fun txid idx => ?_, fun script txid idx => ?_, fun txid idx => ?_,
    fun script txid idx => ?_, fun txid idx value hput => ?_, fun script txid idx value hput => ?_⟩
  · rw [hstaged _ rfl, if_neg (by simp), hdb]
    simp only [Block.firstPassValue, coinsBefore]
    cases hcreated : b.created full.length ⟨txid, idx⟩ with
    | none => exact hinv.coins.hint txid idx
    | some out => rfl
  · rw [hstaged _ rfl, if_neg (by simp), hdb]
    simp only [Block.firstPassValue, coinsBefore]
    cases hcreated : b.created full.length ⟨txid, idx⟩ with
    | none => exact hinv.coins.output script txid idx
    | some out =>
        rw [Option.some_or, outputValue_some]
        by_cases hscript : out.scriptPubKey = script
        · rw [if_pos hscript]
          rfl
        · -- Another script never held this coin.
          rw [if_neg hscript]
          have hnone := hvalid.fresh (Option.isSome_of_eq_some hcreated)
          refine (hinv.coins.output script txid idx).trans ?_
          rw [coins_eq_none_of_everCreated hnone, outputValue_none]
  · rw [hdb]
    exact hinv.coins.dbHint txid idx
  · rw [hdb]
    exact hinv.coins.dbOutput script txid idx
  · rw [hstaged _ rfl, if_neg (by simp)] at hput
    cases hcreated : b.created full.length ⟨txid, idx⟩ with
    | none =>
        simp only [Block.firstPassValue, hcreated] at hput
        exact hinv.coins.put_hint txid idx value hput
    | some out => exact hfresh _ (by simp [hcreated])
  · rw [hstaged _ rfl, if_neg (by simp)] at hput
    cases hcreated : b.created full.length ⟨txid, idx⟩ with
    | none =>
        simp only [Block.firstPassValue, hcreated] at hput
        exact hinv.coins.put_output script txid idx value hput
    | some out => exact hfresh _ (by simp [hcreated])

/-- The batch with the block's own record in it, before the first output. -/
theorem StagedInv.firstPass (hinv : StagedInv p durable full window σ)
    (hfits : p.Fits full window) (hvalid : ValidBlock full b) :
    FirstPass (σ.insertBlock b.hash full.length b.timestamp b.prevHash)
      (σ.insertBlock b.hash full.length b.timestamp b.prevHash) full b.hash full.length [] [] := by
  have hopen := hinv.isOpen.addTransaction (.block b.hash)
    (.put (.block ⟨full.length, b.timestamp, b.prevHash⟩))
  have hscripts : ScriptInv σ.staged (σ.insertBlock b.hash full.length b.timestamp b.prevHash) full
      b.hash full.length [] := by
    refine (hinv.scriptInv hfits hvalid).congr (hinv.isOpen.addTransaction_db _ _) (fun k hk => ?_)
      (addTransaction_knownScripts _ _).subset
    refine (hinv.isOpen.addTransaction_staged _ _ k).trans (if_neg ?_)
    rintro rfl
    cases hk
  exact
    { writes := .refl hopen
      scripts := ⟨hscripts.firstSeen, hscripts.no_del, hscripts.known, hscripts.own,
        fun _ _ _ => rfl⟩
      cache := hinv.cache.congr (addTransaction_outputCache _ _) }

/-- What the first pass leaves, from the batch invariant. -/
theorem StagedInv.afterOutputs {σ₂ : LevelUpStore} (hinv : StagedInv p durable full window σ)
    (hvalid : ValidBlock full b)
    (hpass : FirstPass (σ.insertBlock b.hash full.length b.timestamp b.prevHash) σ₂ full b.hash
      full.length (firstPassWrites b.transactions b.hash full.length)
      (b.transactions.flatMap (newOutputs · full.length))) :
    AfterOutputs p durable full b σ σ₂ := by
  have hopen₁ : (σ.insertBlock b.hash full.length b.timestamp b.prevHash).Open :=
    hinv.isOpen.addTransaction _ _
  have hstaged₁ : ∀ k, (σ.insertBlock b.hash full.length b.timestamp b.prevHash).staged k =
      if .block b.hash = k then some (.put (b.record full.length)) else σ.staged k :=
    hinv.isOpen.addTransaction_staged _ _
  have hdb : σ₂.db = σ.db := hpass.writes.db.trans (hinv.isOpen.addTransaction_db _ _)
  have hbase : ∀ hash s,
      (σ.insertBlock b.hash full.length b.timestamp b.prevHash).staged (.blkScript hash s) =
        σ.staged (.blkScript hash s) := fun hash s => (hstaged₁ _).trans (if_neg (by simp))
  have hstaged : ∀ k : Key, k.isScript = false → σ₂.staged k =
      putOr (b.firstPassValue full.length k)
        (if .block b.hash = k then some (.put (b.record full.length)) else σ.staged k) := by
    intro k hk
    rw [hpass.writes.staged k hk, staged_firstPassWrites hvalid.ids_nodup hopen₁, ← hstaged₁]
    cases b.firstPassValue full.length k <;> rfl
  have hscripts := hpass.scripts
  rw [outputs_scripts] at hscripts
  exact
    { isOpen := hpass.writes.isOpen
      db := hdb
      staged := hstaged
      scripts := ⟨hscripts.firstSeen, hscripts.no_del, hscripts.known, hscripts.own,
        fun hash s hne => (hscripts.other hash s hne).trans (hbase hash s)⟩
      cache := CacheInv.finish hvalid hpass.cache
      coins := AfterOutputs.coinView hinv hvalid hdb hstaged }

/-- The first pass, from the batch invariant. -/
theorem StagedInv.parseOutputs (hinv : StagedInv p durable full window σ)
    (hfits : p.Fits full window) (hvalid : ValidBlock full b) :
    AfterOutputs p durable full b σ
      ((σ.insertBlock b.hash full.length b.timestamp b.prevHash).parseOutputs b.transactions b.hash
        full.length) := by
  refine hinv.afterOutputs hvalid ?_
  have hpass := (hinv.firstPass hfits hvalid).parseOutputs (hinv.isOpen.addTransaction _ _)
    b.transactions (Int.natCast_nonneg _)
  rwa [List.nil_append, List.nil_append] at hpass

end Stage

end UtxoTracker

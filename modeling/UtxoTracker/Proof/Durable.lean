import UtxoTracker.Proof.Unwind
/-!
# A durable store

What a database holds between commits: the reference record of a chain, the tip pointer on its newest
block, and the recovery records of its newest blocks. Everything `start` reads follows from it.
-/

namespace UtxoTracker

open KeyedStore LevelUpStore Provenance

/-- The newest `depth` blocks of a chain, newest first. -/
def windowOf (chain : Chain) (depth : Nat) : List Hash := (chain.take depth).map Block.hash

/-- The tip pointer of a store that indexes the chain. It is absent until the first commit; a chain
rolled back to nothing leaves height −1 and the parent of its first block. -/
def TipPointer (db : Db) : Chain → Prop
  | [] =>
      db[Key.lastBlockHeight]? = none ∧ db[Key.lastBlockHash]? = none ∨
        db[Key.lastBlockHeight]? = some (.hexText (-1)) ∧
          ∃ hash, db[Key.lastBlockHash]? = some (.hashText hash)
  | b :: rest =>
      db[Key.lastBlockHeight]? = some (.hexText rest.length) ∧
        db[Key.lastBlockHash]? = some (.hashText b.hash)

/-- A queue of aged-out blocks on disk has a block in it. -/
def QueueWellFormed (db : Db) : Prop :=
  ∀ value, db[Key.pendingCleanup]? = some value → ∃ hashes, hashes ≠ [] ∧ value = .hashList hashes

/-- The store `db` indexes `chain`, and keeps the recovery records of its newest `depth` blocks. -/
structure Durable (p : Provenance) (chain : Chain) (depth : Nat) (db : Db) : Prop where
  valid : ValidChain chain
  fits : p.Fits chain (windowOf chain depth)
  indexes : Indexes p chain (windowOf chain depth) db
  tip : TipPointer db chain
  stamp : db[Key.layoutVersion]? = some (.text "2")
  queue : QueueWellFormed db
  depth_le : depth ≤ chain.length

theorem TipPointer.congr {db db' : Db} {chain : Chain} (htip : TipPointer db chain)
    (hheight : db'[Key.lastBlockHeight]? = db[Key.lastBlockHeight]?)
    (hhash : db'[Key.lastBlockHash]? = db[Key.lastBlockHash]?) : TipPointer db' chain := by
  cases chain <;> simpa only [TipPointer, hheight, hhash] using htip

/-! ### The window -/

@[simp] theorem windowOf_zero (chain : Chain) : windowOf chain 0 = [] := by simp [windowOf]

@[simp] theorem windowOf_cons_succ (b : Block) (rest : Chain) (depth : Nat) :
    windowOf (b :: rest) (depth + 1) = b.hash :: windowOf rest depth := rfl

theorem mem_windowOf {chain : Chain} {depth : Nat} {hash : Hash} (hmem : hash ∈ windowOf chain depth) :
    hash ∈ chain.map Block.hash := by
  rw [windowOf, List.map_take] at hmem
  exact List.mem_of_mem_take hmem

theorem windowOf_length {chain : Chain} {depth : Nat} (hle : depth ≤ chain.length) :
    (windowOf chain depth).length = depth := by
  simp [windowOf, hle]

theorem ValidChain.windowOf_nodup {chain : Chain} (hvalid : ValidChain chain) (depth : Nat) :
    (windowOf chain depth).Nodup := by
  rw [windowOf, List.map_take]
  exact hvalid.hash_nodup.take

theorem ValidBlock.hash_notMem_windowOf {chain : Chain} {b : Block} (hvalid : ValidBlock chain b)
    (depth : Nat) : b.hash ∉ windowOf chain depth := by
  intro hmem
  obtain ⟨c, hc, heq⟩ := List.mem_map.mp (mem_windowOf hmem)
  exact hvalid.hash_fresh c hc heq

/-! ### What `start` reads -/

section Reads

variable {p : Provenance} {chain : Chain} {depth : Nat} {σ : LevelUpStore}

theorem Durable.getLastBlockHeight (hdurable : Durable p chain depth σ.db) :
    σ.getLastBlockHeight = chain.length - 1 := by
  have htip := hdurable.tip
  unfold LevelUpStore.getLastBlockHeight
  cases chain with
  | nil =>
      rcases htip with ⟨hheight, -⟩ | ⟨hheight, -⟩ <;> simp [hheight]
  | cons b rest =>
      simp only [TipPointer] at htip
      simp [htip.1]

theorem Durable.getLastBlockHash {b : Block} {rest : Chain}
    (hdurable : Durable p (b :: rest) depth σ.db) : σ.getLastBlockHash = some b.hash := by
  simp [LevelUpStore.getLastBlockHash, hdurable.tip.2]

/-- The `B` records are the blocks of the chain. -/
theorem Durable.getBlock (hdurable : Durable p chain depth σ.db) (hash : Hash) :
    σ.getBlock hash =
      (blockAt chain hash).map fun found =>
        ⟨found.2.length, found.1.timestamp, found.1.prevHash⟩ := by
  rw [LevelUpStore.getBlock, hdurable.indexes _ rfl, record]
  cases blockAt chain hash <;> rfl

theorem Durable.getBlock_tip {b : Block} {rest : Chain}
    (hdurable : Durable p (b :: rest) depth σ.db) :
    σ.getBlock b.hash = some ⟨rest.length, b.timestamp, b.prevHash⟩ := by
  simp [hdurable.getBlock, blockAt_cons]

theorem foldl_higherBlock {top : Hash × BlockRecord} {blocks : List (Hash × BlockRecord)}
    (hhigher : ∀ other ∈ blocks, other ≠ top → other.2.h < top.2.h) :
    ∀ best, (∀ known, best = some known → known ≠ top → known.2.h < top.2.h) →
      top ∈ blocks ∨ best = some top → blocks.foldl higherBlock best = some top := by
  induction blocks with
  | nil =>
      intro best _ htop
      simpa using htop
  | cons candidate rest ih =>
      intro best hbest htop
      have hcandidate := hhigher candidate List.mem_cons_self
      refine ih (fun other hmem => hhigher other (List.mem_cons_of_mem _ hmem)) _ ?_ ?_
      · intro known hknown
        unfold higherBlock at hknown
        split at hknown
        · obtain rfl : candidate = known := by simpa using hknown
          exact hcandidate
        · next known' =>
            split at hknown
            · obtain rfl : candidate = known := by simpa using hknown
              exact hcandidate
            · obtain rfl : known' = known := by simpa using hknown
              exact hbest known' rfl
      · by_cases hrest : top ∈ rest
        · exact Or.inl hrest
        refine Or.inr ?_
        unfold higherBlock
        rcases htop with hmem | hbestTop
        · obtain rfl : top = candidate := by simpa [hrest] using hmem
          split
          · rfl
          · next known =>
              by_cases heq : known = top
              · simp [heq]
              · rw [if_pos (hbest known rfl heq)]
        · rw [hbestTop]
          by_cases heq : candidate = top
          · simp [heq]
          · have := hcandidate heq
            simp only
            rw [if_neg (by omega)]

/-- The highest stored block is the tip. -/
theorem Durable.getLastBlock {b : Block} {rest : Chain}
    (hdurable : Durable p (b :: rest) depth σ.db) :
    σ.getLastBlock = some (b.hash, ⟨rest.length, b.timestamp, b.prevHash⟩) := by
  have hentry : ∀ {hash record}, (hash, record) ∈ scan σ.db blockEntry ↔
      σ.getBlock hash = some record := by
    intro hash record
    rw [mem_scan, LevelUpStore.getBlock, Option.bind_eq_some_iff]
    constructor
    · rintro ⟨k, v, hget, haccept⟩
      cases k with
      | block h =>
          simp only [blockEntry, Option.map_eq_some_iff, Prod.mk.injEq] at haccept
          obtain ⟨record', hdecode, rfl, rfl⟩ := haccept
          exact ⟨v, hget, hdecode⟩
      | _ => cases haccept
    · rintro ⟨v, hget, hdecode⟩
      exact ⟨.block hash, v, hget, by simp [blockEntry, hdecode]⟩
  refine foldl_higherBlock ?_ none (by simp) (Or.inl (hentry.mpr hdurable.getBlock_tip))
  rintro ⟨hash, record⟩ hmem hne
  rw [hentry, hdurable.getBlock, Option.map_eq_some_iff] at hmem
  obtain ⟨⟨c, below⟩, hfound, rfl⟩ := hmem
  rw [blockAt_cons] at hfound
  by_cases hhash : b.hash = hash
  · rw [if_pos hhash, Option.some.injEq, Prod.mk.injEq] at hfound
    obtain ⟨rfl, rfl⟩ := hfound
    exact absurd (by rw [hhash]) hne
  · rw [if_neg hhash] at hfound
    obtain ⟨-, above, habove⟩ := blockAt_eq_some hfound
    simp [habove]
    omega

/-- A store without blocks has no highest one. -/
theorem Durable.getLastBlock_nil (hdurable : Durable p [] depth σ.db) : σ.getLastBlock = none := by
  have hempty : scan σ.db blockEntry = [] := by
    rw [List.eq_nil_iff_forall_not_mem]
    rintro ⟨hash, record⟩ hmem
    obtain ⟨k, v, hget, haccept⟩ := mem_scan.mp hmem
    cases k with
    | block h =>
        rw [hdurable.indexes _ rfl] at hget
        cases hget
    | _ => cases haccept
  rw [LevelUpStore.getLastBlock, hempty, List.foldl_nil]

/-- The `N` records are the window. -/
theorem Durable.mem_getLastStoredBlocks (hdurable : Durable p chain depth σ.db) {hash : Hash} :
    hash ∈ σ.getLastStoredBlocks ↔ hash ∈ windowOf chain depth := by
  rw [getLastStoredBlocks, mem_scan]
  constructor
  · rintro ⟨k, v, hget, haccept⟩
    cases k with
    | storedBlk h =>
        obtain rfl : h = hash := by simpa [storedBlkAccept] using haccept
        rw [hdurable.indexes _ rfl, record] at hget
        by_contra hnotMem
        simp [hnotMem] at hget
    | _ => cases haccept
  · intro hmem
    refine ⟨.storedBlk hash, .empty, ?_, rfl⟩
    rw [hdurable.indexes _ rfl, record, if_pos hmem]

theorem getLastStoredBlocks_nodup : σ.getLastStoredBlocks.Nodup := by
  refine nodup_scan fun k v k' v' hash haccept haccept' => ?_
  cases k <;> cases k' <;> simp_all [storedBlkAccept]

theorem sortByHeight_eq {blocks sorted : List (Hash × Int)} (hperm : blocks.Perm sorted)
    (hsorted : sorted.Pairwise fun a b => a.2 < b.2) : Tracker.sortByHeight blocks = sorted := by
  have htotal : Std.Total fun a b : Hash × Int => a.2 ≤ b.2 := ⟨fun a b => le_total a.2 b.2⟩
  have htrans : IsTrans (Hash × Int) fun a b => a.2 ≤ b.2 := ⟨fun _ _ _ => le_trans⟩
  have hall : (Tracker.sortByHeight blocks).Perm sorted :=
    (List.perm_insertionSort _ _).trans hperm
  -- Distinct heights make the order antisymmetric on the list.
  have hnodup : (sorted.map Prod.snd).Nodup := List.pairwise_map.mpr (hsorted.imp ne_of_lt)
  refine List.Perm.eq_of_pairwise (fun a b ha hb hab hba => ?_)
    (List.pairwise_insertionSort _ _) (hsorted.imp le_of_lt) hall
  exact List.inj_on_of_nodup_map hnodup (hall.mem_iff.mp ha) hb (le_antisymm hab hba)

/-- The height under which a hash is stored. -/
def heightOf (chain : Chain) (hash : Hash) : Int :=
  ((blockAt chain hash).map fun found => (found.2.length : Int)).getD (-1)

theorem heightOf_lt (chain : Chain) (hash : Hash) : heightOf chain hash < chain.length := by
  unfold heightOf
  cases hfound : blockAt chain hash with
  | none => simp; omega
  | some found =>
      obtain ⟨-, above, habove⟩ := blockAt_eq_some hfound
      rw [habove]
      simp
      omega

theorem heightOf_pairwise (hnodup : (chain.map Block.hash).Nodup) :
    (chain.map Block.hash).Pairwise fun a b => heightOf chain b < heightOf chain a := by
  induction chain with
  | nil => exact List.Pairwise.nil
  | cons b rest ih =>
      rw [List.map_cons, List.nodup_cons] at hnodup
      have hbelow : ∀ hash ∈ rest.map Block.hash,
          heightOf (b :: rest) hash = heightOf rest hash := by
        intro hash hmem
        have hne : b.hash ≠ hash := fun heq => hnodup.1 (heq ▸ hmem)
        simp [heightOf, blockAt_cons, hne]
      rw [List.map_cons, List.pairwise_cons]
      refine ⟨fun hash hmem => ?_, (ih hnodup.2).imp_of_mem fun ha hb hlt => ?_⟩
      · rw [hbelow hash hmem]
        simpa [heightOf, blockAt_cons] using heightOf_lt rest hash
      · rwa [hbelow _ ha, hbelow _ hb]

/-- **The window is read back in height order**, the tip last. -/
theorem Durable.loadLastBlocks (hdurable : Durable p chain depth σ.db) :
    Tracker.loadLastBlocksSortedByHeight σ = (windowOf chain depth).reverse := by
  have hheight : ∀ hash, ((σ.getBlock hash).map BlockRecord.h).getD (-1) = heightOf chain hash := by
    intro hash
    rw [hdurable.getBlock, heightOf]
    cases blockAt chain hash <;> rfl
  have hperm : σ.getLastStoredBlocks.Perm (windowOf chain depth).reverse := by
    rw [List.perm_ext_iff_of_nodup getLastStoredBlocks_nodup
      (List.nodup_reverse.mpr (hdurable.valid.windowOf_nodup depth))]
    intro hash
    rw [hdurable.mem_getLastStoredBlocks, List.mem_reverse]
  have hsorted : (windowOf chain depth).reverse.Pairwise fun a b =>
      heightOf chain a < heightOf chain b := by
    rw [List.pairwise_reverse, windowOf, List.map_take]
    exact (heightOf_pairwise hdurable.valid.hash_nodup).take
  simp only [Tracker.loadLastBlocksSortedByHeight, hheight]
  rw [sortByHeight_eq (hperm.map fun hash => (hash, heightOf chain hash))]
  · simp [Function.comp_def]
  · rwa [List.pairwise_map]

end Reads

end UtxoTracker

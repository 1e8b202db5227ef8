import UtxoTracker.Proof.Batch
import UtxoTracker.Proof.Prune
import UtxoTracker.Proof.Walk
import UtxoTracker.Tracker.System
/-!
# The system invariant

In every reachable state the database is a durable store of the committed chain, the open batch
extends it by the staged blocks, and the in-memory window is the newest part of what the store will
hold, the rest being queued for cleanup.
-/

namespace UtxoTracker

open KeyedStore LevelUpStore Provenance Tracker

/-! ### A staged chain over a committed one -/

section Extension

variable {p : Provenance} {chain rest : Chain} {window : List Hash} {b : Block} {σ σ' : LevelUpStore}

theorem everCreated_of_below (hvalid : ValidBlock chain b) {o : OutPoint} {out : NewOutput}
    (hout : everCreated chain o = some out) : everCreated (b :: chain) o = some out := by
  rw [everCreated_cons]
  cases hcreated : b.created chain.length o with
  | none => simpa using hout
  | some other =>
      have hnone := hvalid.fresh (Option.isSome_of_eq_some hcreated)
      rw [hnone] at hout
      cases hout

theorem Provenance.Fits.cons (hfits : p.Fits chain window) (hvalid : ValidBlock chain b) :
    p.Fits (b :: chain) (b.hash :: window) where
  seeded_le := hfits.seeded_le.trans (Nat.le_succ _)
  lost_created := by
    intro o hlost
    obtain ⟨out, hout, hheight⟩ := hfits.lost_created o hlost
    exact ⟨out, everCreated_of_below hvalid hout, hheight⟩
  window_sub := by
    intro hash hmem
    rw [List.map_cons, List.mem_cons]
    exact (List.mem_cons.mp hmem).imp_right (hfits.window_sub hash)

/-- What the cache says of a chain it says of the chain below. -/
theorem CacheInv.tail (hvalid : ValidBlock chain b) (hcache : CacheInv σ (b :: chain) []) :
    CacheInv σ chain [] := by
  intro o record hget
  rcases hcache o record hget with ⟨_, hmem, _⟩ | ⟨hnone, hchain⟩
  · cases hmem
  · exact Or.inr ⟨hnone, fun out hout => hchain out (everCreated_of_below hvalid hout)⟩

theorem CacheInv.below {staged : Chain} (hvalid : ValidChain (staged ++ chain))
    (hcache : CacheInv σ (staged ++ chain) []) : CacheInv σ chain [] := by
  induction staged with
  | nil => exact hcache
  | cons b rest ih => exact ih hvalid.2 (hcache.tail hvalid.1)

theorem blockAt_append {staged : Chain} (hvalid : ValidChain (staged ++ chain)) {hash : Hash}
    (hmem : hash ∈ chain.map Block.hash) : blockAt (staged ++ chain) hash = blockAt chain hash := by
  induction staged with
  | nil => rfl
  | cons b rest ih =>
      obtain ⟨c, hc, heq⟩ := List.mem_map.mp hmem
      have hne : b.hash ≠ hash := fun h =>
        hvalid.1.hash_fresh c (List.mem_append_right _ hc) (heq.trans h.symm)
      rw [List.cons_append, blockAt_cons, if_neg hne, ih hvalid.2]

theorem windowOf_append (staged chain : Chain) (depth : Nat) :
    windowOf (staged ++ chain) (depth + staged.length) =
      staged.map Block.hash ++ windowOf chain depth := by
  rw [windowOf, Nat.add_comm, List.take_length_add_append, List.map_append, windowOf]

end Extension

/-! ### The parts of the invariant -/

/-- The in-memory window is the newest part of the `stored` newest blocks; the others are queued. -/
structure WindowInv (t : Tracker) (chain : Chain) (stored kept : Nat) : Prop where
  le : kept ≤ stored
  last : t.lastBlocks = (windowOf chain kept).reverse
  aged : ∀ hash ∈ windowOf chain stored, hash ∈ t.lastBlocks ∨ hash ∈ t.pendingKMCleanup

/-- The in-memory cursor stands on the newest block. -/
structure CursorInv (t : Tracker) (chain : Chain) : Prop where
  index : t.lastProcessedBlockIndex = chain.length - 1
  hash : ∀ b ∈ chain.head?, t.lastProcessedBlockHash = some b.hash

/-- The open batch. -/
structure BatchInv (s : Sys) (stored : Nat) : Prop where
  staged : StagedInv s.provenance s.chain s.full (windowOf s.full stored) s.tracker.db
  housekeeping : ∀ k : Key, k.isMeta = true → k ≠ .undoWatermark → s.tracker.db.staged k = none

/-- The recovery records of the stored window are the ones indexing wrote. -/
def WroteInv (s : Sys) (stored : Nat) : Prop :=
  ∀ k hash, k.undoBlock = some hash → hash ∈ windowOf s.full stored →
    s.wrote k = (blockAt s.full hash).bind fun found => s.provenance.undoRecord found.1 found.2 k

/-- Between blocks. -/
structure IdleInv (s : Sys) (depth : Nat) : Prop where
  cursor : CursorInv s.tracker s.full
  quantity : s.tracker.blocksQuantity = s.staged.length
  window : ∃ kept, WindowInv s.tracker s.full (depth + s.staged.length) kept ∧
    if s.staged = [] then kept = depth else kept ≤ s.tracker.undoBlocks
  batch : s.staged ≠ [] → BatchInv s (depth + s.staged.length)

/-- Between a commit and its cleanup. -/
structure FlushedInv (s : Sys) (depth : Nat) : Prop where
  staged : s.staged = []
  cursor : CursorInv s.tracker s.chain
  window : ∃ kept ≤ s.tracker.undoBlocks, WindowInv s.tracker s.chain depth kept

/-- While the loop walks back: nothing is staged, and the window is the stored one. -/
structure SettledInv (s : Sys) (depth : Nat) : Prop where
  staged : s.staged = []
  last : s.tracker.lastBlocks = (windowOf s.chain depth).reverse

def LoopInv (s : Sys) (depth : Nat) : Prop :=
  match s.phase with
  | .idle => IdleInv s depth
  | .flushed => FlushedInv s depth
  | .recovering => SettledInv s depth ∧ s.tracker.blocksQuantity = 0
  | .walking _ w => SettledInv s depth ∧ WalkInv w s.tracker.undoBlocks depth
  | _ => SettledInv s depth

/-- **The system invariant**, at a window of `depth` stored blocks. -/
structure InvAt (s : Sys) (depth : Nat) : Prop where
  durable : Durable s.provenance s.chain depth s.db
  valid : ValidChain s.full
  fits : s.provenance.Fits s.full (windowOf s.full (depth + s.staged.length))
  known : ∀ script ∈ s.tracker.db.knownScripts, (firstSeen s.full script).isSome
  cache : CacheInv s.tracker.db s.full []
  wrote : WroteInv s (depth + s.staged.length)
  loop : LoopInv s depth

def Inv (s : Sys) : Prop := ∃ depth, InvAt s depth

end UtxoTracker

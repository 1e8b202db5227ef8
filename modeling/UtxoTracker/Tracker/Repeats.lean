import UtxoTracker.Lib.Recreation
import UtxoTracker.Tracker.Reference
/-!
# Chains that repeat a transaction

Before transaction ids were kept unique a block could carry a transaction of an earlier block again.
Each of its outpoints then has a history of creations and spends, one change for each block.
-/

namespace UtxoTracker

open LevelUpStore Recreation

/-- What each block does to an outpoint, the newest first. -/
def history : Chain → OutPoint → List (Change NewOutput)
  | [], _ => []
  | b :: rest, o => ⟨b.created rest.length o, decide (o ∈ b.spent)⟩ :: history rest o

/-- The coin that indexing block by block keeps at an outpoint. -/
def keptCoinAt (chain : Chain) (o : OutPoint) : Option NewOutput := overwriting (history chain o)

/-- A block that may repeat transactions of the chain. A txid identifies its transaction's outputs, no
outpoint is spent twice in a block, and a spent outpoint is kept by the chain or created by the block
itself. -/
structure RepeatableBlock (chain : Chain) (b : Block) : Prop where
  ids_nodup : (b.transactions.map Tx.id).Nodup
  same_outs : ∀ tx ∈ b.transactions, ∀ c ∈ chain, ∀ earlier ∈ c.transactions,
    earlier.id = tx.id → earlier.outs = tx.outs
  spent_nodup : b.spent.Nodup
  spendable : ∀ o ∈ b.spent, (b.created chain.length o).isSome ∨ (keptCoinAt chain o).isSome

def RepeatableChain : Chain → Prop
  | [] => True
  | b :: rest => RepeatableBlock rest b ∧ RepeatableChain rest

instance (chain : Chain) (b : Block) : Decidable (RepeatableBlock chain b) :=
  decidable_of_iff
    ((b.transactions.map Tx.id).Nodup ∧
      (∀ tx ∈ b.transactions, ∀ c ∈ chain, ∀ earlier ∈ c.transactions,
        earlier.id = tx.id → earlier.outs = tx.outs) ∧
      b.spent.Nodup ∧ ∀ o ∈ b.spent,
        (b.created chain.length o).isSome ∨ (keptCoinAt chain o).isSome)
    ⟨fun ⟨hids, houts, hspent, hspendable⟩ => ⟨hids, houts, hspent, hspendable⟩,
      fun ⟨hids, houts, hspent, hspendable⟩ => ⟨hids, houts, hspent, hspendable⟩⟩

instance decidableRepeatableChain : (chain : Chain) → Decidable (RepeatableChain chain)
  | [] => isTrue trivial
  | b :: rest =>
      have : Decidable (RepeatableChain rest) := decidableRepeatableChain rest
      inferInstanceAs (Decidable (RepeatableBlock rest b ∧ RepeatableChain rest))

namespace Tracker

/-- Index one block and flush it on its own, its aged-out blocks cleaned up. -/
def indexAndFlush (t : Tracker) (b : Block) : Option Tracker :=
  match t.indexNextBlock b with
  | some (.ok t) =>
      match t.commitBatch b.hash t.lastProcessedBlockIndex with
      | .ok t =>
          match t.cleanupAgedBlocks with
          | .ok t => some t.finishFlushedBlock
          | .error _ => none
      | .error _ => none
  | _ => none

/-- A tracker on an empty path that has indexed a chain so. -/
def indexEach (undoBlocks : Nat) : Chain → Option Tracker
  | [] => (start ∅ undoBlocks).toOption
  | b :: rest => (indexEach undoBlocks rest).bind fun t => t.indexAndFlush b

end Tracker

end UtxoTracker

import Mathlib.Data.Finset.Dedup
import UtxoTracker.Lib.Ledger
import UtxoTracker.Tracker.Apply
/-!
# What a store should hold

The reference reading of a chain, stated without the code's batches, caches or scans: which coins it
leaves unspent, where a script was first seen, which block carries a transaction. From it `record`
gives the value every key of the store must have.

A chain is a list of blocks, newest first, so a block's height is the length of the chain below it.
-/

namespace UtxoTracker

open LevelUpStore

abbrev Chain := List Block

/-! ### One block -/

/-- The output `o` of this block, at the height it is mined at. -/
def Block.created (b : Block) (height : Int) (o : OutPoint) : Option NewOutput :=
  (b.transactions.find? fun tx => tx.id = o.txid).bind fun tx => (newOutputs tx height)[o.index]?

def Block.spent (b : Block) : List OutPoint :=
  b.transactions.flatMap fun tx =>
    (tx.ins.filter TxIn.spends).map fun input => ⟨input.hash, input.index⟩

def Block.scripts (b : Block) : List Hash :=
  b.transactions.flatMap fun tx => tx.outs.map TxOut.scriptHash

def Block.hasTx (b : Block) (txid : Hash) : Bool := b.transactions.any fun tx => tx.id = txid

/-- The block as a change of the ledger. -/
def Block.delta (b : Block) (height : Int) : Ledger.Delta OutPoint NewOutput :=
  { created := b.created height
    spent := b.spent }

/-! ### A chain -/

def deltas : Chain → List (Ledger.Delta OutPoint NewOutput)
  | [] => []
  | b :: rest => b.delta rest.length :: deltas rest

/-- The outputs created and not spent by the chain. -/
def utxo (chain : Chain) : OutPoint → Option NewOutput := Ledger.replay (deltas chain)

/-- The outputs created by the chain, spent or not. -/
def everCreated (chain : Chain) : OutPoint → Option NewOutput := Ledger.everCreated (deltas chain)

/-- The height of the oldest block that carries `script`. -/
def firstSeen : Chain → Hash → Option Int
  | [], _ => none
  | b :: rest, script =>
      (firstSeen rest script).or (if script ∈ b.scripts then some rest.length else none)

/-- The block with this hash, and the chain below it. -/
def blockAt : Chain → Hash → Option (Block × Chain)
  | [], _ => none
  | b :: rest, hash => if b.hash = hash then some (b, rest) else blockAt rest hash

/-- The block that carries this transaction, and the chain below it. -/
def txBlock : Chain → Hash → Option (Block × Chain)
  | [], _ => none
  | b :: rest, txid => if b.hasTx txid then some (b, rest) else txBlock rest txid

/-- What a block may be appended to a chain. Block hashes and txids identify their content, a
transaction has an output, and a block spends each coin once: one of the chain, or one of its
own. -/
structure ValidBlock (chain : Chain) (b : Block) : Prop where
  hash_fresh : ∀ c ∈ chain, c.hash ≠ b.hash
  linked : ∀ parent ∈ chain.head?, b.prevHash = parent.hash
  ids_nodup : (b.transactions.map Tx.id).Nodup
  ids_fresh : ∀ tx ∈ b.transactions, ∀ c ∈ chain, c.hasTx tx.id = false
  outs_nonempty : ∀ tx ∈ b.transactions, tx.outs ≠ []
  spent_nodup : b.spent.Nodup
  spendable : ∀ o ∈ b.spent, (b.created chain.length o).isSome ∨ (utxo chain o).isSome

/-- Every block of the chain was valid on the chain below it. -/
def ValidChain : Chain → Prop
  | [] => True
  | b :: rest => ValidBlock rest b ∧ ValidChain rest

instance (chain : Chain) (b : Block) : Decidable (ValidBlock chain b) :=
  decidable_of_iff
    ((∀ c ∈ chain, c.hash ≠ b.hash) ∧ (∀ parent ∈ chain.head?, b.prevHash = parent.hash) ∧
      (b.transactions.map Tx.id).Nodup ∧
      (∀ tx ∈ b.transactions, ∀ c ∈ chain, c.hasTx tx.id = false) ∧
      (∀ tx ∈ b.transactions, tx.outs ≠ []) ∧ b.spent.Nodup ∧
      ∀ o ∈ b.spent, (b.created chain.length o).isSome ∨ (utxo chain o).isSome)
    ⟨fun ⟨hhash, hlink, hids, hfresh, houts, hspent, hspendable⟩ =>
      ⟨hhash, hlink, hids, hfresh, houts, hspent, hspendable⟩,
    fun ⟨hhash, hlink, hids, hfresh, houts, hspent, hspendable⟩ =>
      ⟨hhash, hlink, hids, hfresh, houts, hspent, hspendable⟩⟩

instance decidableValidChain : (chain : Chain) → Decidable (ValidChain chain)
  | [] => .isTrue trivial
  | b :: rest =>
      have := decidableValidChain rest
      inferInstanceAs (Decidable (ValidBlock rest b ∧ ValidChain rest))

/-! ### The record of every key -/

/-- Where a store came from: the number of blocks at the bottom of its chain that a bulk load put
there, whether that load kept the tx index, and the coins that rolling such blocks back lost. -/
structure Provenance where
  seeded : Nat
  txIndex : Bool
  lost : Finset OutPoint
  deriving DecidableEq

/-- A store built by live indexing alone. -/
def Provenance.live : Provenance :=
  { seeded := 0
    txIndex := true
    lost := ∅ }

/-- A store that a bulk load built up to `height` blocks. -/
def Provenance.bulk (height : Nat) (txIndex : Bool) : Provenance :=
  { seeded := height
    txIndex
    lost := ∅ }

namespace Provenance

variable (p : Provenance)

/-- Do `T`, `X` and `Y` cover the block at this height? -/
def indexed (height : Nat) : Bool := p.seeded ≤ height ∨ p.txIndex

/-- The coins the store still holds. -/
def coins (chain : Chain) (o : OutPoint) : Option NewOutput :=
  if o ∈ p.lost then none else utxo chain o

/-- The coins the recovery records of a block keep. A bulk load writes none. -/
def archived (b : Block) (rest : Chain) (o : OutPoint) : Option NewOutput :=
  if rest.length < p.seeded then none else (b.delta rest.length).archive (p.coins rest) o

/-- A coin's `O` value under a script, and its `H` value. -/
def outputValue (script : Hash) (coin : Option NewOutput) : Option Value :=
  coin.bind fun out => if out.scriptPubKey = script then some (.output out.record) else none

def hintValue (coin : Option NewOutput) : Option Value :=
  coin.map fun out => .hash out.scriptPubKey

/-- The recovery records of block `b` on the chain `rest`, at a key of that block. -/
def undoRecord (b : Block) (rest : Chain) : Key → Option Value
  | .outDel _ script txid idx => outputValue script (p.archived b rest ⟨txid, idx⟩)
  | .hintDel _ txid idx => hintValue (p.archived b rest ⟨txid, idx⟩)
  | .outBlk _ txid idx => hintValue (b.created rest.length ⟨txid, idx⟩)
  | .blkScript _ script =>
      if script ∈ b.scripts ∧ firstSeen rest script = none then some .empty else none
  | .txBlockRecovery _ txid =>
      if b.hasTx txid ∧ p.indexed rest.length then some (.hash txid) else none
  | _ => none

/-- The recovery record at a key of block `hash`, when that block is in the window. -/
def windowRecord (chain : Chain) (window : List Hash) (hash : Hash) (key : Key) : Option Value :=
  if hash ∈ window then (blockAt chain hash).bind fun found => p.undoRecord found.1 found.2 key
  else none

/-- After rolling block `b` back to the chain `rest`. Rolling back a seeded block loses the coins it
spent, since nothing recorded them; a coin whose creating block is gone is no longer lost. -/
def unwind (b : Block) (rest : Chain) : Provenance :=
  { p with
    seeded := min p.seeded rest.length
    lost := (p.lost ∪ if rest.length < p.seeded then b.spent.toFinset else ∅).filter fun o =>
      b.created rest.length o = none }

/-- The value of every key of a store that indexes `chain` and keeps the recovery records of the
blocks in `window`. The tip pointer, the layout stamp and the housekeeping keys are not covered. -/
def record (chain : Chain) (window : List Hash) : Key → Option Value
  | .block hash =>
      (blockAt chain hash).map fun found =>
        .block ⟨found.2.length, found.1.timestamp, found.1.prevHash⟩
  | .tx txid =>
      (txBlock chain txid).bind fun found =>
        if p.indexed found.2.length then some (.txRecord found.1.hash txid) else none
  | .txExact txid =>
      (txBlock chain txid).bind fun found =>
        if p.indexed found.2.length then some (.hash found.1.hash) else none
  | .output script txid idx => outputValue script (p.coins chain ⟨txid, idx⟩)
  | .outHint txid idx => hintValue (p.coins chain ⟨txid, idx⟩)
  | .scriptBlk script => (firstSeen chain script).map .scriptBlk
  | .storedBlk hash => if hash ∈ window then some .empty else none
  | .outDel hash script txid idx => p.windowRecord chain window hash (.outDel hash script txid idx)
  | .hintDel hash txid idx => p.windowRecord chain window hash (.hintDel hash txid idx)
  | .outBlk hash txid idx => p.windowRecord chain window hash (.outBlk hash txid idx)
  | .blkScript hash script => p.windowRecord chain window hash (.blkScript hash script)
  | .txBlockRecovery hash txid => p.windowRecord chain window hash (.txBlockRecovery hash txid)
  | _ => none

end Provenance

/-- The tip pointer, the layout stamp and the housekeeping keys. -/
def Key.isMeta : Key → Bool
  | .pendingCleanup | .undoWatermark | .haltMarker => true
  | .lastBlockHash | .lastBlockHeight | .layoutVersion => true
  | _ => false

/-- The block a recovery record belongs to. -/
def Key.undoBlock : Key → Option Hash
  | .outDel hash _ _ _ | .hintDel hash _ _ | .outBlk hash _ _ => some hash
  | .blkScript hash _ | .txBlockRecovery hash _ => some hash
  | _ => none

end UtxoTracker

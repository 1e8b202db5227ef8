import Mathlib.Data.Finset.Card
import UtxoTracker.Lib.HexText
import UtxoTracker.Lib.KeyedStore
/-!
# Record keys and values

One constructor of `Key` stands for one key builder of `key_codec.js`, one constructor of `Value`
for one encoder of `value_codec.js`. A key's fields are its prefix byte and its operands in the
order the builder writes them, so the order of keys is the order of their bytes. A vout is the
position of an output in its transaction, or the 4-byte index an input names; both fit the key's
4-byte field.
-/

namespace UtxoTracker

open KeyedStore

/-- A 32-byte hash: a txid, a block hash or the SHA-256 of an output script. -/
abbrev Hash := BitVec 256

instance : LawfulBEq Hash := inferInstance
instance : Std.TransOrd Hash := inferInstance

/-- The text of a hash. -/
def hashText (hash : Hash) : List Char := HexText.write 64 hash.toNat

def Hash.text (hash : Hash) : String := String.ofList (hashText hash)

/-- `JSON.stringify` of a character inside a string. -/
def jsonChar (c : Char) : List Char :=
  if c = '"' ∨ c = '\\' then ['\\', c]
  else if c = '\n' then ['\\', 'n']
  else if c = '\r' then ['\\', 'r']
  else if c = '\t' then ['\\', 't']
  else if c.toNat = 8 then ['\\', 'b']
  else if c.toNat = 12 then ['\\', 'f']
  else if c.toNat < 32 then '\\' :: 'u' :: HexText.write 4 c.toNat
  else [c]

/-- `JSON.stringify` of a string. -/
def jsonString (text : String) : String :=
  "\"" ++ String.ofList (text.toList.flatMap jsonChar) ++ "\""

/-- The output `index` of transaction `txid`. -/
structure OutPoint where
  txid : Hash
  index : Nat
  deriving DecidableEq, Repr

def OutPoint.fields (o : OutPoint) : List Nat := [o.txid.toNat, o.index]

theorem OutPoint.fields_injective : Function.Injective OutPoint.fields := by
  rintro ⟨t, i⟩ ⟨t', i'⟩ h
  simp only [OutPoint.fields, List.cons.injEq, BitVec.toNat_inj, and_true] at h
  rw [h.1, h.2]

instance : Ord OutPoint := ordOfFields OutPoint.fields
instance : Std.TransOrd OutPoint := transOrd_ofFields OutPoint.fields
instance : Std.LawfulEqOrd OutPoint :=
  lawfulEqOrd_ofFields OutPoint.fields OutPoint.fields_injective

/-- The store's keys. -/
inductive Key where
  /-- `B`: a block's height, timestamp and parent. -/
  | block (blockHash : Hash)
  /-- `T`: the block of a transaction; in the mempool store, membership. -/
  | tx (txid : Hash)
  /-- `I`: a mempool transaction spends this outpoint. -/
  | input (prevTxid : Hash) (idx : Nat)
  /-- `O`: an unspent output under its script. -/
  | output (script txid : Hash) (idx : Nat)
  /-- `H`: the script of an unspent output. -/
  | outHint (txid : Hash) (idx : Nat)
  /-- `J`: the outpoints a mempool transaction spends. -/
  | inHint (txid prevTxid : Hash) (idx : Nat)
  /-- `S`: the height a script was first seen at. -/
  | scriptBlk (script : Hash)
  /-- `Z`: the scripts first seen in a block. -/
  | blkScript (blockHash script : Hash)
  /-- `K`: the `O` record a block's spend took. -/
  | outDel (blockHash script txid : Hash) (idx : Nat)
  /-- `M`: the `H` record a block's spend took. -/
  | hintDel (blockHash txid : Hash) (idx : Nat)
  /-- `N`: a block of the undo window. -/
  | storedBlk (blockHash : Hash)
  /-- `W`: an output created in a block. -/
  | outBlk (blockHash txid : Hash) (idx : Nat)
  /-- `X`: the block of a confirmed transaction. -/
  | txExact (txid : Hash)
  /-- `Y`: a transaction indexed by a block. -/
  | txBlockRecovery (blockHash txid : Hash)
  /-- `P`: the aged-out blocks whose records still have to go. -/
  | pendingCleanup
  /-- `Q`: the deepest undo window the store has held. -/
  | undoWatermark
  /-- `R`: the store was declared unrecoverable. -/
  | haltMarker
  | lastBlockHash
  | lastBlockHeight
  | layoutVersion
  deriving DecidableEq, Repr

/-- The prefix byte and the operands of a key. The three `LAST_BLOCK_HASH`, `LAST_BLOCK_HEIGHT` and
`LAYOUT_VERSION` keys share the byte `L` and sort in that order. -/
def Key.fields : Key → List Nat
  | .block h => [0x42, h.toNat]
  | .tx t => [0x54, t.toNat]
  | .input t i => [0x49, t.toNat, i]
  | .output s t i => [0x4F, s.toNat, t.toNat, i]
  | .outHint t i => [0x48, t.toNat, i]
  | .inHint t p i => [0x4A, t.toNat, p.toNat, i]
  | .scriptBlk s => [0x53, s.toNat]
  | .blkScript h s => [0x5A, h.toNat, s.toNat]
  | .outDel h s t i => [0x4B, h.toNat, s.toNat, t.toNat, i]
  | .hintDel h t i => [0x4D, h.toNat, t.toNat, i]
  | .storedBlk h => [0x4E, h.toNat]
  | .outBlk h t i => [0x57, h.toNat, t.toNat, i]
  | .txExact t => [0x58, t.toNat]
  | .txBlockRecovery h t => [0x59, h.toNat, t.toNat]
  | .pendingCleanup => [0x50]
  | .undoWatermark => [0x51]
  | .haltMarker => [0x52]
  | .lastBlockHash => [0x4C, 0]
  | .lastBlockHeight => [0x4C, 1]
  | .layoutVersion => [0x4C, 2]

theorem Key.fields_injective : Function.Injective Key.fields := by
  intro a b h
  cases a <;> cases b <;> simp_all [Key.fields, BitVec.toNat_inj]

instance : Ord Key := ordOfFields Key.fields
instance : Std.TransOrd Key := transOrd_ofFields Key.fields
instance : Std.LawfulEqOrd Key := lawfulEqOrd_ofFields Key.fields Key.fields_injective

/-- The `B` value. -/
structure BlockRecord where
  h : Int
  t : Nat
  ph : Hash
  deriving DecidableEq, Repr

/-- The `O` value, kept in `K` while the spend can be undone. -/
structure OutputRecord where
  v : Nat
  h : Int
  t : Hash
  cb : Bool
  deriving DecidableEq, Repr

/-- The store's values. -/
inductive Value where
  /-- `encodeBlock` -/
  | block (record : BlockRecord)
  /-- `encodeTx` of the block followed by the whole txid: the 64-byte `T` value. -/
  | txRecord (blockHash fullTxid : Hash)
  /-- 32 bytes: the block of `X` and of a 32-byte `T`, the script of `H`, `M` and `W`, the txid of
  `Y`, the spender of `I`. -/
  | hash (h : Hash)
  /-- `encodeOutput` -/
  | output (record : OutputRecord)
  /-- `encodeScriptBlk` -/
  | scriptBlk (height : Int)
  /-- The empty value of `N`, `Z` and `J`. -/
  | empty
  /-- A height as hexadecimal text. -/
  | hexText (n : Int)
  /-- A hash as hexadecimal text. -/
  | hashText (h : Hash)
  /-- A JSON list of block hashes. -/
  | hashList (hashes : List Hash)
  /-- A count as decimal text. -/
  | decimalText (n : Nat)
  /-- Other text. -/
  | text (s : String)
  deriving DecidableEq, Repr

/-- The durable store. -/
abbrev Db := Std.ExtTreeMap Key Value

/-- The 32 bytes that lead a `T` or an `X` value. -/
def decodeTx : Value → Option Hash
  | .txRecord blockHash _ => some blockHash
  | .hash h => some h
  | _ => none

def decodeOutput : Value → Option OutputRecord
  | .output record => some record
  | _ => none

def decodeBlock : Value → Option BlockRecord
  | .block record => some record
  | _ => none

/-- A 32-byte value read as a hash. -/
def decodeHash : Value → Option Hash
  | .hash h => some h
  | _ => none

end UtxoTracker

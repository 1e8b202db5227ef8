import UtxoTracker.Lib.ByteString
import UtxoTracker.Lib.MerkleTree
import UtxoTracker.Store.Records
/-!
# The Merkle check of a dumped block

A block's transactions are those its header commits to if their txids fold to the header's Merkle
root, and no level of the tree pairs two equal hashes. `sha256` is Node's.
-/

namespace UtxoTracker.Bulk

/-- A SHA-256, of input of any width. -/
abbrev Sha256 := (width : Nat) → BitVec width → Hash

/-- The double SHA-256 of the chain. -/
def hash256 (sha256 : Sha256) {width : Nat} (buf : BitVec width) : Hash :=
  sha256 256 (sha256 width buf)

/-- The hash of two nodes one after the other. -/
def merkleNode (sha256 : Sha256) (left right : Hash) : Hash := hash256 sha256 (left ++ right)

structure MerkleRoot where
  root : Option Hash
  /-- Two equal hashes were paired at some level. -/
  mutated : Bool
  deriving DecidableEq, Repr

def computeMerkleRoot (sha256 : Sha256) (txHashes : List Hash) : MerkleRoot :=
  let (root, mutated) := MerkleTree.fold (merkleNode sha256) txHashes false
  { root, mutated }

/-- The display order of a hash, as the messages show it. -/
def displayHex (hash : Hash) : String :=
  String.ofList (ByteString.toHex (ByteString.toLE 32 hash.toNat))

/-- `verifyMerkleRoot`: nothing, or what is wrong. `decoded` is the txids of the block, or the
decoder's error, and `headerRoot` the 32 bytes at `MERKLE_OFF`. -/
def verifyMerkleRoot (sha256 : Sha256) (decoded : Except String (List Hash)) (headerRoot : Hash) :
    Option String :=
  match decoded with
  | .error message => some ("tx section failed to parse: " ++ message)
  | .ok [] => some "block has no transactions (a real block always has a coinbase)"
  | .ok txids =>
      let { root, mutated } := computeMerkleRoot sha256 txids
      if mutated then
        some "duplicate-pair merkle mutation detected (CVE-2012-2459); tx list is ambiguous"
      else if root ≠ some headerRoot then
        some ("merkle root mismatch: header=" ++ displayHex headerRoot ++ " recomputed="
          ++ displayHex (root.getD 0))
      else none

end UtxoTracker.Bulk

import UtxoTracker.Bulk.MerkleRoot
/-!
# The Merkle check binds the txids

As long as the hashes of the tree do not collide, two lists of one height with one root are the same
list, unless one is marked as mutated. The lists that repeat a trailing group are all marked, and a
tree is not marked for filling up an odd level.
-/

namespace UtxoTracker.Bulk

open MerkleTree

section Hashing

variable (sha256 : Sha256)

/-- The 64-byte inputs hashed for a list of txids. -/
def hashedBuffers (txids : List Hash) : List (BitVec 512) :=
  (hashed (merkleNode sha256) txids).map fun p => p.1 ++ p.2

/-- `hash256` is injective on these inputs. No hash is on all inputs of 64 bytes. -/
def CollisionFree (buffers : List (BitVec 512)) : Prop :=
  ∀ a ∈ buffers, ∀ b ∈ buffers, hash256 sha256 a = hash256 sha256 b → a = b

/-- How often a list is folded up to its root. -/
def treeHeight (txids : List Hash) : Nat := Nat.clog 2 txids.length

/-- The hashes `j` levels above the txids. -/
abbrev merkleLevel (j : Nat) (txids : List Hash) : List Hash :=
  levelAt (merkleNode sha256) j txids

variable {sha256}

theorem concat_injective {p q : Hash × Hash} (heq : p.1 ++ p.2 = q.1 ++ q.2) : p = q := by
  obtain ⟨a, b⟩ := p
  obtain ⟨c, d⟩ := q
  have hleft : a = c := by
    rw [← BitVec.extractLsb'_append_eq_left (a := a) (b := b), heq,
      BitVec.extractLsb'_append_eq_left]
  have hright : b = d := by
    rw [← BitVec.extractLsb'_append_eq_right (a := a) (b := b), heq,
      BitVec.extractLsb'_append_eq_right]
  rw [hleft, hright]

theorem CollisionFree.apart {buffers : List (BitVec 512)} (hfree : CollisionFree sha256 buffers)
    {hashes : List (Hash × Hash)} (hmem : ∀ p ∈ hashes, p.1 ++ p.2 ∈ buffers) :
    Apart (merkleNode sha256) hashes :=
  fun p hp q hq heq => concat_injective (hfree _ (hmem p hp) _ (hmem q hq) heq)

end Hashing

/-- **The Merkle check binds the txid list.** -/
theorem computeMerkleRoot_binds (sha256 : Sha256) :
    (∀ txids txids' : List Hash, txids ≠ [] → txids' ≠ [] →
      treeHeight txids = treeHeight txids' →
      CollisionFree sha256 (hashedBuffers sha256 txids ++ hashedBuffers sha256 txids') →
      (computeMerkleRoot sha256 txids).mutated = false →
      (computeMerkleRoot sha256 txids').mutated = false →
      (computeMerkleRoot sha256 txids).root = (computeMerkleRoot sha256 txids').root →
      txids = txids') ∧
    (∀ (txids : List Hash) (j : Nat), Odd (merkleLevel sha256 j txids).length →
      (computeMerkleRoot sha256 (repeatGroup j txids)).mutated = true ∧
      (1 < (merkleLevel sha256 j txids).length →
        (computeMerkleRoot sha256 (repeatGroup j txids)).root =
          (computeMerkleRoot sha256 txids).root)) ∧
    (∀ txids : List Hash, (computeMerkleRoot sha256 txids).mutated = true ↔
      ∃ j i hash, (merkleLevel sha256 j txids)[2 * i]? = some hash ∧
        (merkleLevel sha256 j txids)[2 * i + 1]? = some hash) ∧
    ∀ txids : List Hash, txids.Nodup → CollisionFree sha256 (hashedBuffers sha256 txids) →
      (computeMerkleRoot sha256 txids).mutated = false := by
  refine ⟨?_, ?_, ?_, ?_⟩
  · intro txids txids' hne hne' hheight hfree hmutated hmutated' hroot
    have hapart : Apart (merkleNode sha256)
        (hashed (merkleNode sha256) txids ++ hashed (merkleNode sha256) txids') := by
      refine hfree.apart fun p hp => ?_
      rw [hashedBuffers, hashedBuffers, ← List.map_append]
      exact List.mem_map_of_mem hp
    exact eq_of_root_eq hapart (fun p => List.mem_append_left _) (fun p => List.mem_append_right _)
      hne hne' hheight hmutated hmutated' hroot
  · intro txids j hodd
    exact fold_repeatGroup hodd
  · intro txids
    refine (fold_mutated_iff txids).trans ?_
    simp only [hasTwin_iff]
  · intro txids hnodup hfree
    exact fold_of_nodup (hfree.apart fun p hp => List.mem_map_of_mem hp) (fun p hp => hp) hnodup

/-- Three txids, and SHA-256 on what is hashed for them. -/
def threeTxids : List Hash :=
  [0x0101010101010101010101010101010101010101010101010101010101010101#256,
    0x0202020202020202020202020202020202020202020202020202020202020202#256,
    0x0303030303030303030303030303030303030303030303030303030303030303#256]

def threeTxidsSha256 : Sha256 := fun _ buf =>
  if buf.toNat = 0x01010101010101010101010101010101010101010101010101010101010101010202020202020202020202020202020202020202020202020202020202020202 then
    0xf818afd37a6dc3bc92fb44731011277006db4efa6e9023cd7468c02335d22a4d#256
  else if buf.toNat = 0xf818afd37a6dc3bc92fb44731011277006db4efa6e9023cd7468c02335d22a4d then
    0x39ce20bede82c96b8908bec4a157b09c549b3db90b9b474bda9ae9b9030310b4#256
  else if buf.toNat = 0x03030303030303030303030303030303030303030303030303030303030303030303030303030303030303030303030303030303030303030303030303030303 then
    0x6aa56c4bcd208911792ad24c7681fefb93bed51903afc54860c9bd37e41e5a31#256
  else if buf.toNat = 0x6aa56c4bcd208911792ad24c7681fefb93bed51903afc54860c9bd37e41e5a31 then
    0x643d4b7e3699d2b3d8c9374b3600bdf1f573b799d2a56886236551a016b42ddf#256
  else if buf.toNat = 0x39ce20bede82c96b8908bec4a157b09c549b3db90b9b474bda9ae9b9030310b4643d4b7e3699d2b3d8c9374b3600bdf1f573b799d2a56886236551a016b42ddf then
    0x01b00e31a2f0d7d566b6d5a567ba0790b90a5fe0b8fb27e413cec1f35438cd23#256
  else
    0x223e023fadf1f053df26988871f893c821c28edf77d64a955e6c2a02d547bdac#256

theorem hashedBuffers_threeTxids : hashedBuffers threeTxidsSha256 threeTxids =
    [0x01010101010101010101010101010101010101010101010101010101010101010202020202020202020202020202020202020202020202020202020202020202#512,
      0x03030303030303030303030303030303030303030303030303030303030303030303030303030303030303030303030303030303030303030303030303030303#512,
      0x39ce20bede82c96b8908bec4a157b09c549b3db90b9b474bda9ae9b9030310b4643d4b7e3699d2b3d8c9374b3600bdf1f573b799d2a56886236551a016b42ddf#512] := by
  rw [hashedBuffers, hashed_pairUp (by decide), hashed_pairUp (by decide), hashed, if_neg (by decide)]
  decide +kernel

theorem collisionFree_threeTxids :
    CollisionFree threeTxidsSha256 (hashedBuffers threeTxidsSha256 threeTxids) := by
  have hdistinct : ((hashedBuffers threeTxidsSha256 threeTxids).map
      (hash256 threeTxidsSha256)).Nodup := by
    rw [hashedBuffers_threeTxids]
    decide +kernel
  exact fun a ha b hb heq => List.inj_on_of_nodup_map hdistinct ha hb heq

/-- The third txid twice over is marked, and has the root of the three. -/
theorem computeMerkleRoot_binds_threeTxids :
    (computeMerkleRoot threeTxidsSha256 threeTxids).mutated = false ∧
      (computeMerkleRoot threeTxidsSha256 (repeatGroup 0 threeTxids)).mutated = true ∧
      (computeMerkleRoot threeTxidsSha256 (repeatGroup 0 threeTxids)).root =
        (computeMerkleRoot threeTxidsSha256 threeTxids).root ∧
      ∀ txids : List Hash, txids = threeTxids → threeTxids = txids := by
  obtain ⟨hbinds, hrepeats, -, hdistinct⟩ := computeMerkleRoot_binds threeTxidsSha256
  have hmutated := hdistinct threeTxids (by decide +kernel) collisionFree_threeTxids
  have hodd : (merkleLevel threeTxidsSha256 0 threeTxids).length = 3 := rfl
  obtain ⟨hmarked, hroot⟩ := hrepeats threeTxids 0 (by rw [hodd]; decide)
  refine ⟨hmutated, hmarked, hroot (by rw [hodd]; decide), ?_⟩
  rintro txids rfl
  refine hbinds threeTxids threeTxids (List.cons_ne_nil _ _) (List.cons_ne_nil _ _) rfl ?_
    hmutated hmutated rfl
  exact fun a ha b hb heq => collisionFree_threeTxids a (by simpa using ha) b (by simpa using hb) heq

end UtxoTracker.Bulk

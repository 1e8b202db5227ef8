import Mathlib.Data.List.TakeWhile
import Mathlib.Data.Nat.Bitwise
import UtxoTracker.Lib.Fallible
import UtxoTracker.Chain.AuxPow
/-!
# Three ways to the pure block

A well-formed merge-mined block loses exactly its AuxPoW section, whether the section's length comes
from the node's header answer, from walking the section, or is never needed because the block is put
together from its parts. On any bytes at all the walk ends inside the buffer or throws.
-/

namespace UtxoTracker.BlockchainConnector

open ByteString

/-! ### Well-formed blocks -/

/-- A field of fixed width. -/
abbrev Fixed (width : Nat) := { bytes : List UInt8 // bytes.length = width }

/-- A list whose length a varint can state. -/
abbrev Counted (α : Type) := { items : List α // items.length < 256 ^ 8 }

/-- Bytes behind their length. -/
def sized (bytes : Counted UInt8) : List UInt8 := compactSize bytes.1.length ++ bytes.1

/-- Items behind their count. -/
def counted {α : Type} (serialize : α → List UInt8) (items : Counted α) : List UInt8 :=
  compactSize items.1.length ++ items.1.flatMap serialize

structure CoinbaseInput where
  prevout : Fixed 36
  script : Counted UInt8
  sequence : Fixed 4

def CoinbaseInput.serialize (input : CoinbaseInput) : List UInt8 :=
  input.prevout.1 ++ (sized input.script ++ input.sequence.1)

structure CoinbaseOutput where
  value : Fixed 8
  script : Counted UInt8

def CoinbaseOutput.serialize (output : CoinbaseOutput) : List UInt8 :=
  output.value.1 ++ sized output.script

/-- The parent chain's coinbase: at least one input, and with a segwit marker one witness stack for
each. -/
structure ParentCoinbase where
  version : Fixed 4
  inputs : Counted CoinbaseInput
  inputs_ne : inputs.1 ≠ []
  outputs : Counted CoinbaseOutput
  witness : Option { items : List (Counted (Counted UInt8)) // items.length = inputs.1.length }
  locktime : Fixed 4

namespace ParentCoinbase

variable (coinbase : ParentCoinbase)

def marker : List UInt8 := if coinbase.witness.isSome then [0x00, 0x01] else []

def witnessBytes : List UInt8 :=
  match coinbase.witness with
  | none => []
  | some items => items.1.flatMap (counted sized)

def serialize : List UInt8 :=
  coinbase.version.1 ++ (coinbase.marker ++ (counted CoinbaseInput.serialize coinbase.inputs ++
    (counted CoinbaseOutput.serialize coinbase.outputs ++
      (coinbase.witnessBytes ++ coinbase.locktime.1))))

end ParentCoinbase

structure MerkleBranch where
  hashes : Counted (Fixed 32)
  index : Fixed 4

def MerkleBranch.serialize (branch : MerkleBranch) : List UInt8 :=
  counted Subtype.val branch.hashes ++ branch.index.1

structure AuxPow where
  coinbase : ParentCoinbase
  parentHash : Fixed 32
  coinbaseBranch : MerkleBranch
  chainBranch : MerkleBranch
  parentHeader : Fixed 80

def AuxPow.serialize (auxPow : AuxPow) : List UInt8 :=
  auxPow.coinbase.serialize ++ (auxPow.parentHash.1 ++ (auxPow.coinbaseBranch.serialize ++
    (auxPow.chainBranch.serialize ++ auxPow.parentHeader.1)))

/-- A merge-mined block: its version has the AuxPoW bit, and it holds at least one transaction and
fewer than 2^32. -/
structure MergeMinedBlock where
  header : Fixed 80
  auxPowBit : ofLE (header.1.take 4) &&& 0x100 ≠ 0
  auxPow : AuxPow
  transactions : List (List UInt8)
  transactions_ne : transactions ≠ []
  transactions_le : transactions.length ≤ 0xFFFFFFFF
  nonempty : ∀ tx ∈ transactions, tx ≠ []

namespace MergeMinedBlock

variable (b : MergeMinedBlock)

def body : List UInt8 := compactSize b.transactions.length ++ b.transactions.flatten

/-- The block as the node serves it. -/
def serialize : List UInt8 := b.header.1 ++ (b.auxPow.serialize ++ b.body)

/-- The block without its AuxPoW section. -/
def pure : List UInt8 := b.header.1 ++ b.body

end MergeMinedBlock

/-- bitcoinjs reads the pure block as what it is: the same number of transactions, no byte left
over, and the merkle root the header states. -/
structure BitcoinJs.Reads {τ : Type} (bitcoinjs : BitcoinJs τ) (b : MergeMinedBlock) : Prop where
  parses : ∃ txs merkleRoot, bitcoinjs.fromBuffer b.pure =
      .ok { transactions := some txs, merkleRoot, byteLength := b.pure.length } ∧
    txs.length = b.transactions.length ∧ bitcoinjs.calculateMerkleRoot txs = merkleRoot

/-- The node serves the block's parts: a header answer that starts with the header, the txids in
block order, and each transaction's bytes. -/
structure BlockSource.Serves (source : BlockSource) (b : MergeMinedBlock) : Prop where
  header : ∃ more, source.getBlockHeader = .ok (toHex b.header.1 ++ more)
  transactions : ∃ txids : List String, source.getBlockVerbose = .ok (some txids) ∧
    txids.length = b.transactions.length ∧
    ∀ entry ∈ txids.zip b.transactions,
      source.getRawTransaction entry.1 = .ok (some (toHex entry.2))

/-! ### Varints -/

variable {buf : Buffer}

/-- The varint of nine bytes, low half first. -/
theorem readVarint_nine {offset n : Nat} {tail : List UInt8} (hfits : n < 256 ^ 8)
    (hat : At buf offset (0xFF :: (toLE 8 n ++ tail))) : readVarint buf offset = .ok (n, 9) := by
  have hfirst : buf[offset]? = some 0xFF := hat.getElem?_eq
  have hhalves : toLE 8 n = toLE 4 n ++ toLE 4 (n / 256 ^ 4) := toLE_add 4 4 n
  rw [hhalves, List.append_assoc] at hat
  have hlow : At buf (offset + 1) (toLE 4 n ++ (toLE 4 (n / 256 ^ 4) ++ tail)) :=
    hat.next
  have hhigh : At buf (offset + 5) (toLE 4 (n / 256 ^ 4) ++ tail) :=
    hlow.skip_of_length (length_toLE 4 n)
  have hvalue : n / 256 ^ 4 % 256 ^ 4 * 0x100000000 + n % 256 ^ 4 = n := by omega
  unfold readVarint
  simp only [hfirst, readUIntLE, readLE_of_at hlow, readLE_of_at hhigh, bind, Except.bind, hvalue]
  rfl

/-- **Varints are read back**, with the bytes they take. -/
theorem readVarint_compactSize {offset n : Nat} {tail : List UInt8} (hfits : n < 256 ^ 8)
    (hat : At buf offset (compactSize n ++ tail)) :
    readVarint buf offset = .ok (n, (compactSize n).length) := by
  unfold compactSize at hat ⊢
  split_ifs at hat ⊢ with hone hthree hfive
  · have hfirst : buf[offset]? = some (UInt8.ofNat n) := hat.getElem?_eq
    obtain ⟨hvalue, hbyte⟩ := compactSize_byte hone
    simp only [readVarint, hfirst, if_pos hbyte, hvalue, List.length_cons, List.length_nil]
  · have hfirst : buf[offset]? = some 0xFD := hat.getElem?_eq
    have hrest : At buf (offset + 1) (toLE 2 n ++ tail) := hat.next
    have hvalue : n % 256 ^ 2 = n := Nat.mod_eq_of_lt (by omega)
    simp only [readVarint, hfirst, readUIntLE, readLE_of_at hrest, hvalue]
    rfl
  · have hfirst : buf[offset]? = some 0xFE := hat.getElem?_eq
    have hrest : At buf (offset + 1) (toLE 4 n ++ tail) := hat.next
    have hvalue : n % 256 ^ 4 = n := Nat.mod_eq_of_lt (by omega)
    simp only [readVarint, hfirst, readUIntLE, readLE_of_at hrest, hvalue]
    rfl
  · exact readVarint_nine hfits hat

/-! ### Walking a well-formed section -/

theorem skipField_skips {bytes : List UInt8} {size : Nat} (hsize : bytes.length = size)
    (what : String) : Skips buf (skipField buf size what) bytes := by
  intro offset tail hat
  have hlength := hat.length_eq
  rw [List.length_append] at hlength
  have hfits : ¬ buf.length < offset + size := by omega
  simp only [skipField, requireBytes, if_neg hfits, bind, Except.bind, hsize]

theorem skipSized_skips (items : Counted UInt8) : Skips buf (skipSized buf) (sized items) := by
  intro offset tail hat
  rw [sized, List.append_assoc] at hat
  simp only [skipSized, readVarint_compactSize items.2 hat, bind, Except.bind, sized,
    List.length_append]

theorem skipCounted_skips {α : Type} {skip : Nat → Except String Nat} {serialize : α → List UInt8}
    (hskip : ∀ item, Skips buf skip (serialize item)) (items : Counted α) :
    Skips buf (skipCounted buf skip) (counted serialize items) := by
  intro offset tail hat
  rw [counted, List.append_assoc] at hat
  simp only [skipCounted, readVarint_compactSize items.2 hat, bind, Except.bind, counted,
    List.length_append]
  rw [Skips.times (fun item _ => hskip item) _ tail hat.skip, Nat.add_assoc]

theorem skipInput_skips (input : CoinbaseInput) : Skips buf (skipInput buf) input.serialize := by
  refine (skipField_skips input.prevout.2 _).bind ?_
  exact (skipSized_skips input.script).bind (skipField_skips input.sequence.2 _)

theorem skipOutput_skips (output : CoinbaseOutput) :
    Skips buf (skipOutput buf) output.serialize :=
  (skipField_skips output.value.2 _).bind (skipSized_skips output.script)

theorem skipBranch_skips (branch : MerkleBranch) (what : String) :
    Skips buf (skipBranch buf what) branch.serialize := by
  intro offset tail hat
  have hhashes : (branch.hashes.1.flatMap Subtype.val ++ branch.index.1).length =
      branch.hashes.1.length * 32 + 4 := by
    have hwidth : ∀ hashes : List (Fixed 32), (hashes.flatMap Subtype.val).length =
        hashes.length * 32 := by
      intro hashes
      induction hashes with
      | nil => rfl
      | cons hash rest ih =>
          rw [List.flatMap_cons, List.length_append, hash.2, ih, List.length_cons]
          omega
    rw [List.length_append, hwidth, branch.index.2]
  rw [MerkleBranch.serialize, counted, List.append_assoc, List.append_assoc] at hat
  have hbody := hat.skip
  rw [← List.append_assoc] at hbody
  simp only [skipBranch, readVarint_compactSize branch.hashes.2 hat, bind, Except.bind]
  rw [skipField_skips hhashes what _ tail hbody]
  simp only [MerkleBranch.serialize, counted, List.length_append]
  congr 1
  omega

namespace ParentCoinbase

variable (coinbase : ParentCoinbase)

theorem marker_length :
    coinbase.marker.length = if coinbase.witness.isSome then 2 else 0 := by
  unfold marker
  split <;> rfl

/-- The byte after the version is zero exactly when there is a marker: a varint of at least one
input starts with another byte. -/
theorem hasSegwit_eq {offset : Nat} {tail : List UInt8}
    (hat : At buf offset
      (coinbase.marker ++ (counted CoinbaseInput.serialize coinbase.inputs ++ tail))) :
    decide (buf[offset]? = some 0x00) = coinbase.witness.isSome := by
  rw [hat.getElem?_eq, marker]
  cases coinbase.witness with
  | some items => rfl
  | none =>
      have hpos := List.length_pos_iff.mpr coinbase.inputs_ne
      obtain ⟨byte, rest, hbytes, hne⟩ := compactSize_head_ne_zero hpos
      simp [counted, hbytes, hne]

theorem skipInputs {offset : Nat} {tail : List UInt8}
    (hat : At buf offset (coinbase.version.1 ++ (coinbase.marker ++
      (counted CoinbaseInput.serialize coinbase.inputs ++ tail)))) :
    ∃ next, skipCoinbaseInputs buf offset = .ok
        { offset := next
          hasSegwit := coinbase.witness.isSome
          nIns := coinbase.inputs.1.length } ∧
      next = offset + (coinbase.version.1.length + (coinbase.marker.length +
        (counted CoinbaseInput.serialize coinbase.inputs).length)) ∧ At buf next tail := by
  have hversion := skipField_skips coinbase.version.2 "coinbase version" offset _ hat
  have hmarker := hat.skip
  have hinputs := hmarker.skip
  have hafter := hinputs.skip
  have hoffset : (if coinbase.witness.isSome then offset + coinbase.version.1.length + 2
      else offset + coinbase.version.1.length) =
        offset + coinbase.version.1.length + coinbase.marker.length := by
    rw [marker_length]
    split <;> rfl
  have hloop := skipCounted_skips skipInput_skips coinbase.inputs _ tail hinputs
  rw [counted, List.append_assoc] at hinputs
  simp only [skipCounted, readVarint_compactSize coinbase.inputs.2 hinputs, bind,
    Except.bind] at hloop
  refine ⟨_, ?_, ?_, hafter⟩
  · simp only [skipCoinbaseInputs, hversion, coinbase.hasSegwit_eq hmarker, hoffset, bind,
      Except.bind, readVarint_compactSize coinbase.inputs.2 hinputs, hloop]
  · omega

theorem skipWitness_skips :
    Skips buf (skipWitness buf coinbase.witness.isSome coinbase.inputs.1.length)
      coinbase.witnessBytes := by
  unfold skipWitness witnessBytes
  cases coinbase.witness with
  | none => exact Skips.pure
  | some items =>
      have hstacks : Skips buf (skipTimes (skipCounted buf (skipSized buf)) items.1.length)
          (items.1.flatMap (counted sized)) :=
        Skips.times fun item _ => skipCounted_skips skipSized_skips item
      rw [items.2] at hstacks
      exact hstacks

theorem skipOutputs_skips :
    Skips buf (fun offset => skipCoinbaseOutputs buf offset coinbase.witness.isSome
        coinbase.inputs.1.length)
      (counted CoinbaseOutput.serialize coinbase.outputs ++
        (coinbase.witnessBytes ++ coinbase.locktime.1)) := by
  refine (skipCounted_skips skipOutput_skips coinbase.outputs).bind ?_
  exact coinbase.skipWitness_skips.bind (skipField_skips coinbase.locktime.2 _)

end ParentCoinbase

/-- **The walk crosses a well-formed section** and stops at its end. -/
theorem skipAuxPow_skips (auxPow : AuxPow) : Skips buf (skipAuxPow buf) auxPow.serialize := by
  intro offset tail hat
  obtain ⟨coinbase, parentHash, coinbaseBranch, chainBranch, parentHeader⟩ := auxPow
  simp only [AuxPow.serialize, ParentCoinbase.serialize, List.append_assoc] at hat ⊢
  obtain ⟨next, hinputs, hnext, houtputs⟩ := coinbase.skipInputs hat
  have hrest : Skips buf (fun offset => do
      let offset ← skipCoinbaseOutputs buf offset coinbase.witness.isSome coinbase.inputs.1.length
      let offset ← skipField buf 32 "parent block hash" offset
      let offset ← skipBranch buf "coinbase branch" offset
      let offset ← skipBranch buf "chain branch" offset
      skipField buf 80 "parent block header" offset)
      ((counted CoinbaseOutput.serialize coinbase.outputs ++
        (coinbase.witnessBytes ++ coinbase.locktime.1)) ++ (parentHash.1 ++
          (coinbaseBranch.serialize ++ (chainBranch.serialize ++ parentHeader.1)))) := by
    refine coinbase.skipOutputs_skips.bind ((skipField_skips parentHash.2 _).bind ?_)
    refine (skipBranch_skips coinbaseBranch _).bind ((skipBranch_skips chainBranch _).bind ?_)
    exact skipField_skips parentHeader.2 _
  have hwalk := hrest next tail (by simpa only [List.append_assoc] using houtputs)
  unfold skipAuxPow
  simp only [hinputs, bind, Except.bind] at hwalk ⊢
  rw [hwalk, hnext]
  simp only [List.length_append]
  congr 1
  omega

/-- The walk never ends outside the buffer. -/
theorem skipAuxPow_bounded {start offset : Nat} (hrun : skipAuxPow buf start = .ok offset) :
    offset ≤ buf.length := by
  have hlast : ∀ offset', skipField buf 80 "parent block header" offset' = .ok offset →
      offset ≤ buf.length := by
    intro offset' hfield
    simp only [skipField, requireBytes, bind, Except.bind] at hfield
    split at hfield
    · cases hfield
    · next hok =>
        split at hok
        · cases hok
        · obtain rfl := Except.ok.inj hok
          obtain rfl := Except.ok.inj hfield
          omega
  unfold skipAuxPow at hrun
  simp only [bind, Except.bind] at hrun
  split at hrun
  · cases hrun
  split at hrun
  · cases hrun
  split at hrun
  · cases hrun
  split at hrun
  · cases hrun
  split at hrun
  · cases hrun
  · exact hlast _ hrun

/-! ### The stripped block -/

theorem parseInt16_toHex (bytes : List UInt8) :
    parseInt16 (toHex bytes) = (HexText.read (toHex bytes)).getD 0 := by
  have hdigits : ∀ c ∈ toHex bytes, (HexText.digitValue c).isSome = true := by
    intro c hmem
    obtain ⟨byte, -, hbyte⟩ := List.mem_flatMap.mp hmem
    exact HexText.isHexDigit_of_mem_write hbyte
  rw [parseInt16, List.takeWhile_eq_self_iff.mpr hdigits]

/-- The first four bytes, as `parseInt` reads their digits. -/
theorem parseInt16_four (b₀ b₁ b₂ b₃ : UInt8) :
    parseInt16 (toHex [b₀, b₁, b₂, b₃]) =
      ((b₀.toNat * 256 + b₁.toNat) * 256 + b₂.toNat) * 256 + b₃.toNat := by
  have hbyte : ∀ (byte : UInt8) (acc : Nat), (HexText.write 2 byte.toNat).foldl HexText.readDigit
      (some acc) = some (acc * 256 + byte.toNat) :=
    fun byte acc => HexText.foldl_readDigit_write byte.toNat_lt acc
  rw [parseInt16_toHex]
  simp only [toHex, List.flatMap_cons, List.flatMap_nil, List.append_nil, HexText.read,
    List.foldl_append, hbyte, Option.getD_some, Nat.zero_mul, Nat.zero_add]

/-- The version bit the code tests is the bit of the version's second byte. -/
theorem blockVersion_bit (b₀ b₁ b₂ b₃ : UInt8)
    (hbit : ofLE [b₀, b₁, b₂, b₃] &&& 0x100 ≠ 0) :
    blockVersion (((b₀.toNat * 256 + b₁.toNat) * 256 + b₂.toNat) * 256 + b₃.toNat) &&& 0x100 ≠
      0 := by
  have htest : ∀ n : Nat, n &&& 0x100 ≠ 0 ↔ n.testBit 8 = true := by
    intro n
    have hpow : (0x100 : Nat) = 2 ^ 8 := rfl
    rw [hpow, Nat.and_two_pow]
    cases n.testBit 8 <;> simp
  rw [htest] at hbit ⊢
  have h₂ := b₂.toNat_lt
  have h₃ := b₃.toNat_lt
  have h₀ := b₀.toNat_lt
  have hlow : ofLE [b₀, b₁, b₂, b₃] / 2 ^ 8 % 2 = b₁.toNat % 2 := by
    simp only [ofLE]
    omega
  have hhigh : (((b₀.toNat * 256 + b₁.toNat) * 256 + b₂.toNat) * 256 + b₃.toNat) / 2 ^ 16 % 2 =
      b₁.toNat % 2 := by omega
  rw [Nat.testBit_eq_decide_div_mod_eq, hlow, ← hhigh, ← Nat.testBit_eq_decide_div_mod_eq] at hbit
  simp [blockVersion, Nat.testBit_or, Nat.testBit_shiftLeft, Nat.testBit_and, Nat.testBit_shiftRight,
    hbit]

namespace MergeMinedBlock

variable (b : MergeMinedBlock)

theorem version_bit : 8 ≤ (toHex b.serialize).length ∧
    blockVersion (parseInt16 ((toHex b.serialize).take 8)) &&& 0x100 ≠ 0 := by
  obtain ⟨⟨header, hwidth⟩, hbit, auxPow, transactions, hne, hle, hnonempty⟩ := b
  obtain ⟨b₀, b₁, b₂, b₃, rest, rfl⟩ : ∃ b₀ b₁ b₂ b₃ rest, header = b₀ :: b₁ :: b₂ :: b₃ :: rest := by
    match header, hwidth with
    | b₀ :: b₁ :: b₂ :: b₃ :: rest, _ => exact ⟨b₀, b₁, b₂, b₃, rest, rfl⟩
  refine ⟨?_, ?_⟩
  · rw [length_toHex, serialize, List.length_append, hwidth]
    omega
  · have htake : (toHex (serialize ⟨⟨b₀ :: b₁ :: b₂ :: b₃ :: rest, hwidth⟩, hbit, auxPow, transactions,
        hne, hle, hnonempty⟩)).take 8 = toHex [b₀, b₁, b₂, b₃] := toHex_take _ 4
    rw [htake, parseInt16_four]
    exact blockVersion_bit b₀ b₁ b₂ b₃ hbit

/-- Cutting the section out of the block's text. -/
theorem cut_eq : (toHex b.serialize).take 160 ++
    (toHex b.serialize).drop (2 * (80 + b.auxPow.serialize.length)) = toHex b.pure := by
  have hheader : b.serialize.take 80 = b.header.1 := List.take_left' b.header.2
  have hbody : b.serialize.drop (80 + b.auxPow.serialize.length) = b.body := by
    have hsplit : b.serialize = (b.header.1 ++ b.auxPow.serialize) ++ b.body :=
      (List.append_assoc _ _ _).symm
    have hlength : (b.header.1 ++ b.auxPow.serialize).length = 80 + b.auxPow.serialize.length := by
      rw [List.length_append, b.header.2]
    rw [hsplit, List.drop_left' hlength]
  have htake : (toHex b.serialize).take 160 = toHex b.header.1 := by
    rw [← hheader]
    exact toHex_take b.serialize 80
  rw [htake, toHex_drop, hbody, pure, toHex_append]

theorem auxPow_ne_nil : 0 < b.auxPow.serialize.length := by
  simp only [AuxPow.serialize, List.length_append, b.auxPow.parentHash.2]
  omega

end MergeMinedBlock

section Routes

variable {τ : Type} {bitcoinjs : BitcoinJs τ} {b : MergeMinedBlock}

theorem assertWholeBlock_pure (hreads : bitcoinjs.Reads b) :
    assertWholeBlock bitcoinjs (toHex b.pure) = .ok () := by
  obtain ⟨txs, merkleRoot, hparse, hcount, hroot⟩ := hreads.parses
  have hwhole : ¬ b.pure.length * 2 ≠ (toHex b.pure).length := by
    rw [length_toHex]
    omega
  have hsome : ¬ txs.length < 1 := by
    have hpos := List.length_pos_iff.mpr b.transactions_ne
    omega
  simp only [assertWholeBlock, ofHex_toHex, if_neg hwhole, hparse, Option.getD_some, if_neg hsome,
    ne_eq, not_true_eq_false, if_false, hroot]

/-- The cut by the length of the header answer. -/
theorem strip_legacy (hreads : bitcoinjs.Reads b) :
    stripAuxPowFromBlockHex bitcoinjs (toHex (b.header.1 ++ b.auxPow.serialize))
      (toHex b.serialize) = .ok (toHex b.pure) := by
  have hlength : (toHex (b.header.1 ++ b.auxPow.serialize)).length =
      160 + 2 * b.auxPow.serialize.length := by
    rw [length_toHex, List.length_append, b.header.2]
    omega
  have hpos := b.auxPow_ne_nil
  have hlong : 160 < 160 + 2 * b.auxPow.serialize.length := by omega
  have hcut : 160 + (160 + 2 * b.auxPow.serialize.length - 160) =
      2 * (80 + b.auxPow.serialize.length) := by omega
  rw [stripAuxPowFromBlockHex, hlength, if_pos hlong]
  simp only [hcut, b.cut_eq, assertWholeBlock_pure hreads, bind, Except.bind]

/-- The cut by walking the section. -/
theorem strip_structural (hreads : bitcoinjs.Reads b) :
    stripAuxPowFromBlockHex bitcoinjs (toHex b.header.1) (toHex b.serialize) =
      .ok (toHex b.pure) := by
  have hshort : ¬ 160 < (toHex b.header.1).length := by
    rw [length_toHex, b.header.2]
    decide
  have hat : At b.serialize 80 (b.auxPow.serialize ++ b.body) :=
    (At.start b.serialize).skip_of_length b.header.2
  have hwalk := skipAuxPow_skips b.auxPow 80 b.body hat
  rw [stripAuxPowFromBlockHex, if_neg hshort, if_pos b.version_bit, ofHex_toHex, hwalk]
  simp only [bind, Except.bind, Nat.mul_comm _ 2, b.cut_eq, assertWholeBlock_pure hreads]

end Routes

/-! ### The block from its parts -/

theorem encodeVarintHex_eq {n : Nat} (hle : n ≤ 0xFFFFFFFF) :
    encodeVarintHex n = .ok (toHex (compactSize n)) := by
  unfold encodeVarintHex compactSize
  split_ifs with hone hthree
  · have hall : ∀ n : Fin 253, (Nat.toDigits 16 n.val).leftpad 2 '0' = toHex [UInt8.ofNat n.val] := by
      decide +kernel
    rw [hall ⟨n, hone⟩]
  · rfl
  · rfl

variable {source : BlockSource}

/-- The waves of `getRawTransactions` leave no trace: one answer per txid, in order. -/
theorem getRawTransactions_ok {txids : List String} {transactions : List (List UInt8)}
    (hlength : txids.length = transactions.length)
    (hserves : ∀ entry ∈ txids.zip transactions,
      source.getRawTransaction entry.1 = .ok (some (toHex entry.2))) (concurrency : Nat) :
    getRawTransactions source concurrency txids =
      .ok (transactions.map fun tx => some (toHex tx)) := by
  let answer : String → Option HexString := fun txid => (source.getRawTransaction txid).toOption.join
  have hanswers : txids.map answer = transactions.map fun tx => some (toHex tx) := by
    have hzip : (txids.zip transactions).map (answer ∘ Prod.fst) =
        (txids.zip transactions).map ((fun tx => some (toHex tx)) ∘ Prod.snd) := by
      refine List.map_congr_left fun entry hmem => ?_
      simp only [Function.comp, answer, hserves entry hmem]
      rfl
    rwa [← List.map_map, ← List.map_map, List.map_fst_zip hlength.le,
      List.map_snd_zip hlength.symm.le] at hzip
  have hone : ∀ txid ∈ txids, source.getRawTransaction txid = .ok (answer txid) := by
    intro txid hmem
    have hzip : (txids.zip transactions).map Prod.fst = txids := List.map_fst_zip hlength.le
    rw [← hzip] at hmem
    obtain ⟨entry, hentry, rfl⟩ := List.mem_map.mp hmem
    simp only [answer, hserves entry hentry]
    rfl
  have hwaves : (Chunks.chunks concurrency txids).mapM (fun wave =>
      wave.mapM source.getRawTransaction) =
        .ok ((Chunks.chunks concurrency txids).map (List.map answer)) := by
    refine Fallible.mapM_eq_ok ?_
    rw [List.map_map]
    refine List.map_congr_left fun wave hwave => Fallible.mapM_eq_ok ?_
    rw [List.map_map]
    refine List.map_congr_left fun txid hmem => hone txid ?_
    rw [← Chunks.flatten_chunks concurrency txids]
    exact List.mem_flatten_of_mem hwave hmem
  rw [getRawTransactions, hwaves]
  simp only [bind, Except.bind]
  rw [← List.map_flatten, Chunks.flatten_chunks, hanswers]

theorem requireRawTxs_ok {txids : List String} {transactions : List (List UInt8)}
    (hlength : txids.length = transactions.length) (hnonempty : ∀ tx ∈ transactions, tx ≠ []) :
    requireRawTxs (txids.zip (transactions.map fun tx => some (toHex tx))) =
      .ok (transactions.map toHex) := by
  induction transactions generalizing txids with
  | nil =>
      obtain rfl : txids = [] := List.length_eq_zero_iff.mp hlength
      rfl
  | cons tx rest ih =>
      obtain ⟨txid, txids, rfl⟩ := List.exists_cons_of_length_eq_add_one hlength
      obtain ⟨byte, more, rfl⟩ := List.exists_cons_of_ne_nil (hnonempty tx List.mem_cons_self)
      have hrest := ih (Nat.succ.inj hlength) fun tx hmem => hnonempty tx (List.mem_cons_of_mem _ hmem)
      rw [List.map_cons, List.zip_cons_cons, requireRawTxs, hrest]
      rfl

/-- **Reassembly** needs no cut. -/
theorem getBlockReassembled_eq {b : MergeMinedBlock} (hserves : source.Serves b)
    (concurrency : Nat) : getBlockReassembled source concurrency = .ok (toHex b.pure) := by
  obtain ⟨more, hheader⟩ := hserves.header
  obtain ⟨txids, hverbose, hlength, hraw⟩ := hserves.transactions
  have htake : (toHex b.header.1 ++ more).take 160 = toHex b.header.1 := by
    refine List.take_left' ?_
    rw [length_toHex, b.header.2]
  have hflatten : (b.transactions.map toHex).flatten = toHex b.transactions.flatten := by
    simp only [toHex, List.flatMap_def, List.map_flatten, List.flatten_flatten, List.map_map]
    rfl
  unfold getBlockReassembled
  simp only [hheader, hverbose, getRawTransactions_ok hlength hraw, bind, Except.bind,
    requireRawTxs_ok hlength b.nonempty, List.length_map, encodeVarintHex_eq b.transactions_le,
    htake, hflatten, List.append_assoc, ← toHex_append]
  rfl

/-! ### All three -/

/-- **The three routes agree** on every well-formed merge-mined block, and on any bytes the walk
throws or ends inside the buffer. -/
theorem auxpow_routes_agree {τ : Type} {bitcoinjs : BitcoinJs τ} {b : MergeMinedBlock}
    (hreads : bitcoinjs.Reads b) (hserves : source.Serves b) (concurrency : Nat) :
    stripAuxPowFromBlockHex bitcoinjs (toHex (b.header.1 ++ b.auxPow.serialize))
        (toHex b.serialize) = .ok (toHex b.pure) ∧
      stripAuxPowFromBlockHex bitcoinjs (toHex b.header.1) (toHex b.serialize) =
        .ok (toHex b.pure) ∧
      getBlockReassembled source concurrency = .ok (toHex b.pure) ∧
      ∀ (bytes : Buffer) (start : Nat), (∃ message, skipAuxPow bytes start = .error message) ∨
        ∃ offset ≤ bytes.length, skipAuxPow bytes start = .ok offset := by
  refine ⟨strip_legacy hreads, strip_structural hreads, getBlockReassembled_eq hserves concurrency,
    fun bytes start => ?_⟩
  cases hrun : skipAuxPow bytes start with
  | error message => exact Or.inl ⟨message, rfl⟩
  | ok offset => exact Or.inr ⟨offset, skipAuxPow_bounded hrun, rfl⟩

/-- A coinbase transaction, and its double SHA-256. -/
def coinbaseTx : List UInt8 :=
  [1, 0, 0, 0, 1] ++ List.replicate 32 0 ++ [255, 255, 255, 255, 1, 170, 255, 255, 255, 255, 1] ++
    List.replicate 13 0

def coinbaseTxHash : List UInt8 :=
  [209, 37, 189, 194, 82, 93, 139, 123, 202, 128, 74, 171, 172, 65, 116, 87, 49, 120, 9, 174, 32,
    41, 128, 63, 126, 243, 27, 11, 165, 46, 203, 24]

/-- A block of that transaction, mined with a segwit parent coinbase and a branch of one hash. -/
def mergeMined : MergeMinedBlock where
  header := ⟨[1, 1, 0, 0] ++ List.replicate 32 0 ++ coinbaseTxHash ++ List.replicate 12 0, rfl⟩
  auxPowBit := by decide
  auxPow :=
    { coinbase :=
        { version := ⟨[1, 0, 0, 0], rfl⟩
          inputs :=
            ⟨[{ prevout := ⟨List.replicate 36 255, rfl⟩
                script := ⟨[], by decide⟩
                sequence := ⟨List.replicate 4 255, rfl⟩ }], by decide⟩
          inputs_ne := List.cons_ne_nil _ _
          outputs :=
            ⟨[{ value := ⟨List.replicate 8 0, rfl⟩, script := ⟨[], by decide⟩ }], by decide⟩
          witness := some ⟨[⟨[⟨List.replicate 32 0, by decide⟩], by decide⟩], rfl⟩
          locktime := ⟨List.replicate 4 0, rfl⟩ }
      parentHash := ⟨List.replicate 32 0, rfl⟩
      coinbaseBranch :=
        { hashes := ⟨[⟨List.replicate 32 1, rfl⟩], by decide⟩
          index := ⟨List.replicate 4 0, rfl⟩ }
      chainBranch := { hashes := ⟨[], by decide⟩, index := ⟨List.replicate 4 0, rfl⟩ }
      parentHeader := ⟨List.replicate 80 0, rfl⟩ }
  transactions := [coinbaseTx]
  transactions_ne := List.cons_ne_nil _ _
  transactions_le := by decide
  nonempty := by decide

/-- bitcoinjs on a block of one transaction that hashes to `coinbaseTxHash`. -/
def oneTransaction : BitcoinJs (List UInt8) where
  fromBuffer buf :=
    .ok
      { transactions := some [buf.drop 81]
        merkleRoot := (buf.drop 36).take 32
        byteLength := buf.length }
  calculateMerkleRoot _ := coinbaseTxHash

/-- A node that serves `mergeMined`. -/
def mergeMinedSource : BlockSource where
  getBlockHeader := .ok (toHex mergeMined.header.1)
  getBlockVerbose := .ok (some ["coinbase"])
  getRawTransaction _ := .ok (some (toHex coinbaseTx))

/-- The three routes on that block. -/
theorem auxpow_routes_agree_mergeMined :
    stripAuxPowFromBlockHex oneTransaction (toHex mergeMined.header.1) (toHex mergeMined.serialize) =
        .ok (toHex mergeMined.pure) ∧
      getBlockReassembled mergeMinedSource 50 = .ok (toHex mergeMined.pure) := by
  have hreads : oneTransaction.Reads mergeMined :=
    ⟨[coinbaseTx], coinbaseTxHash, rfl, rfl, rfl⟩
  have hserves : mergeMinedSource.Serves mergeMined :=
    ⟨⟨[], by rw [List.append_nil]; rfl⟩, ["coinbase"], rfl, rfl, by
      intro entry hmem
      obtain rfl : entry = ("coinbase", coinbaseTx) := by simpa [mergeMined] using hmem
      rfl⟩
  obtain ⟨-, hstructural, hreassembled, -⟩ := auxpow_routes_agree hreads hserves 50
  exact ⟨hstructural, hreassembled⟩

end UtxoTracker.BlockchainConnector

import UtxoTracker.Chain.MwebTransaction
/-!
# Flagged transactions are read whole

A well-formed flagged transaction, of any inputs, outputs and witness stacks, is read back with its
own fields and consumed to its last byte, in a block and alone. On any bytes at all the walk stays
inside the buffer.
-/

namespace UtxoTracker.BlockDecoder

open ByteString
open BlockchainConnector (Buffer HexString)

/-! ### Serialized transactions -/

/-- Bytes behind their length. -/
def varBytes (bytes : Buffer) : Buffer := compactSize bytes.length ++ bytes

/-- Items behind their count. -/
def varItems {α : Type} (serialize : α → Buffer) (items : List α) : Buffer :=
  compactSize items.length ++ items.flatMap serialize

def TxInput.prevout (input : TxInput) : Buffer := input.hash ++ toLE 4 input.index.toNat

def TxInput.serialize (input : TxInput) : Buffer :=
  input.prevout ++ (varBytes input.script ++ toLE 4 input.sequence.toNat)

def TxInput.stack (input : TxInput) : Buffer := varItems varBytes input.witness

def TxOutput.serialize (output : TxOutput) : Buffer :=
  toLE 8 output.value.toNat ++ varBytes output.script

namespace Transaction

variable (tx : Transaction) (withWitness : Bool)

def versionBytes : Buffer := toLE 4 tx.version.toUInt32.toNat

def locktimeBytes : Buffer := toLE 4 tx.locktime.toNat

def vin : Buffer := varItems TxInput.serialize tx.ins

def vout : Buffer := varItems TxOutput.serialize tx.outs

def witnessBytes : Buffer := if withWitness then tx.ins.flatMap TxInput.stack else []

/-- Marker and flag. -/
def mwebMarker : Buffer :=
  [0x00, if withWitness then litecoinMwebSegwitFlag else litecoinHogexFlag]

/-- The flagged serialization, around an MWEB part. -/
def flagged (mweb : Buffer) : Buffer :=
  tx.versionBytes ++ (mwebMarker withWitness ++ (tx.vin ++ (tx.vout ++ (tx.witnessBytes withWitness ++
    (mweb ++ tx.locktimeBytes)))))

/-- The canonical serialization, as bitcoinjs reads it. -/
def canonical : Buffer :=
  tx.versionBytes ++ ((if withWitness then [0x00, 0x01] else []) ++ ((tx.vin ++ (tx.vout ++
    tx.witnessBytes withWitness)) ++ tx.locktimeBytes))

/-- A transaction Litecoin writes with the MWEB flag. The witness bit says that there are witnesses;
one that is set over empty stacks alone is refused as superfluous. -/
structure Flagged : Prop where
  version : tx.version = 1 ∨ tx.version = 2
  bare : withWitness = false → ∀ input ∈ tx.ins, input.witness = []
  witnessed : withWitness = true → tx.ins ≠ [] → ∃ input ∈ tx.ins, input.witness ≠ []

end Transaction

/-- bitcoinjs reads the canonical bytes of a transaction with inputs. -/
def BitcoinJs.Reads (bitcoinjs : BitcoinJs) (tx : Transaction) (withWitness : Bool) : Prop :=
  tx.ins ≠ [] → bitcoinjs.fromBuffer (tx.canonical withWitness) false = .ok tx

/-! ### Reading what is there -/

section Reading

variable {buf : Buffer}

theorem subarray_of_at {offset last : Nat} {bytes tail : Buffer}
    (hat : At buf offset (bytes ++ tail)) (hlast : last = offset + bytes.length) :
    subarray buf offset last = bytes := by
  rw [subarray, hat.drop_eq, hlast, Nat.add_sub_cancel_left, List.take_left]

theorem skipMwebBytes_skips {bytes : Buffer} {size : Nat} (hsize : bytes.length = size)
    (what : String) : Skips buf (skipMwebBytes buf size what) bytes := by
  intro offset tail hat
  have hlength := hat.length_eq
  rw [List.length_append] at hlength
  rw [skipMwebBytes, if_neg (by omega), hsize]

/-- A CompactSize behind its first byte. -/
theorem readMwebCompactSize_wide {offset n : Nat} (first : UInt8) {tail : Buffer} (what : String)
    (hfirst : ¬ first < 0xFD) (hsafe : n ≤ maxSafeInteger) (hfits : n < 256 ^ mwebWidth first)
    (hat : At buf offset (first :: (toLE (mwebWidth first) n ++ tail))) :
    readMwebCompactSize buf what offset = .ok (n, offset + (mwebWidth first + 1)) := by
  have hget : buf[offset]? = some first := hat.getElem?_eq
  have hskip := skipMwebBytes_skips (length_toLE (mwebWidth first) n) what _ tail hat.next
  have hread : readUIntLE buf _ _ = .ok _ := readLE_of_fits hat.next hfits
  have hbound : ¬ (mwebWidth first = 8 ∧ maxSafeInteger < n) := by omega
  rw [length_toLE] at hskip
  simp only [readMwebCompactSize, hget, if_neg hfirst, hskip, hread, if_neg hbound, bind,
    Except.bind, Except.ok.injEq, Prod.mk.injEq, true_and]
  omega

/-- **CompactSizes are read back**, with where they end. -/
theorem readMwebCompactSize_of_at {offset n : Nat} {tail : Buffer} (what : String)
    (hsafe : n ≤ maxSafeInteger) (hat : At buf offset (compactSize n ++ tail)) :
    readMwebCompactSize buf what offset = .ok (n, offset + (compactSize n).length) := by
  have hmax : n < 256 ^ 8 := by
    unfold maxSafeInteger at hsafe
    omega
  unfold compactSize at hat ⊢
  split_ifs at hat ⊢ with hone hthree hfive
  · have hfirst : buf[offset]? = some (UInt8.ofNat n) := hat.getElem?_eq
    obtain ⟨hvalue, hbyte⟩ := compactSize_byte hone
    simp only [readMwebCompactSize, hfirst, if_pos hbyte, hvalue, List.length_cons,
      List.length_nil]
  · rw [List.length_cons, length_toLE]
    exact readMwebCompactSize_wide 0xFD what (by decide) hsafe (by rw [mwebWidth]; simp; omega) hat
  · rw [List.length_cons, length_toLE]
    exact readMwebCompactSize_wide 0xFE what (by decide) hsafe (by rw [mwebWidth]; simp; omega) hat
  · rw [List.length_cons, length_toLE]
    exact readMwebCompactSize_wide 0xFF what (by decide) hsafe hmax hat

variable (hbuf : buf.length ≤ maxSafeInteger)
include hbuf

/-- A count of items that follow is one JavaScript can hold. -/
theorem count_safe {offset n : Nat} {front back : Buffer} (hle : n ≤ back.length)
    (hat : At buf offset (front ++ back)) : n ≤ maxSafeInteger := by
  have hlength := hat.length_eq
  rw [List.length_append] at hlength
  omega

theorem skipMwebVarBytes_skips (what : String) (bytes : Buffer) :
    Skips buf (skipMwebVarBytes buf what) (varBytes bytes) := by
  intro offset tail hat
  rw [varBytes, List.append_assoc] at hat
  have hsafe := count_safe hbuf (n := bytes.length) (by rw [List.length_append]; omega) hat
  have hbody := skipMwebBytes_skips rfl what _ tail hat.skip
  simp only [skipMwebVarBytes, readMwebCompactSize_of_at what hsafe hat, bind, Except.bind, hbody,
    varBytes, List.length_append, Nat.add_assoc]

omit hbuf in
theorem length_le_flatMap {α : Type} {serialize : α → Buffer} (hne : ∀ item, serialize item ≠ [])
    (items : List α) : items.length ≤ (items.flatMap serialize).length := by
  induction items with
  | nil => exact Nat.zero_le _
  | cons item rest ih =>
      have := List.length_pos_iff.mpr (hne item)
      rw [List.flatMap_cons, List.length_append, List.length_cons]
      omega

theorem varItems_at {α : Type} {serialize : α → Buffer} (hne : ∀ item, serialize item ≠ [])
    {items : List α} (what : String) {offset : Nat} {tail : Buffer}
    (hat : At buf offset (varItems serialize items ++ tail)) :
    readMwebCompactSize buf what offset =
        .ok (items.length, offset + (compactSize items.length).length) ∧
      At buf (offset + (compactSize items.length).length) (items.flatMap serialize ++ tail) := by
  rw [varItems, List.append_assoc] at hat
  have hcount := length_le_flatMap hne items
  have hsafe := count_safe hbuf (n := items.length) (by rw [List.length_append]; omega) hat
  exact ⟨readMwebCompactSize_of_at what hsafe hat, hat.skip⟩

theorem skipMwebCounted_skips {α : Type} {skip : Nat → Except DecodeError Nat}
    {serialize : α → Buffer} (hne : ∀ item, serialize item ≠ []) {items : List α}
    (hskip : ∀ item ∈ items, Skips buf skip (serialize item)) (what : String) :
    Skips buf (skipMwebCounted buf what skip) (varItems serialize items) := by
  intro offset tail hat
  obtain ⟨hcount, hitems⟩ := varItems_at hbuf hne what hat
  simp only [skipMwebCounted, hcount, bind, Except.bind, Skips.times hskip _ tail hitems, varItems,
    List.length_append, Nat.add_assoc]

omit hbuf in
theorem varBytes_ne_nil (bytes : Buffer) : varBytes bytes ≠ [] :=
  List.append_ne_nil_of_left_ne_nil (compactSize_ne_nil _) _

omit hbuf in
theorem TxInput.prevout_length (input : TxInput) : input.prevout.length = 36 := by
  rw [TxInput.prevout, List.length_append, input.hash_length, length_toLE]

theorem skipMwebInput_skips (input : TxInput) :
    Skips buf (skipMwebInput buf) input.serialize := by
  refine (skipMwebBytes_skips input.prevout_length _).bind ?_
  exact (skipMwebVarBytes_skips hbuf _ _).bind (skipMwebBytes_skips (length_toLE 4 _) _)

theorem skipMwebOutput_skips (output : TxOutput) :
    Skips buf (skipMwebOutput buf) output.serialize :=
  (skipMwebBytes_skips (length_toLE 8 _) _).bind (skipMwebVarBytes_skips hbuf _ _)

omit hbuf in
theorem TxInput.serialize_ne_nil (input : TxInput) : input.serialize ≠ [] := by
  intro hnil
  have hlength := input.prevout_length
  rw [(List.append_eq_nil_iff.mp hnil).1] at hlength
  cases hlength

omit hbuf in
theorem TxOutput.serialize_ne_nil (output : TxOutput) : output.serialize ≠ [] := by
  intro hnil
  exact varBytes_ne_nil _ (List.append_eq_nil_iff.mp hnil).2

theorem skipMwebStack_skips (input : TxInput) : Skips buf (skipMwebStack buf) input.stack :=
  skipMwebCounted_skips hbuf varBytes_ne_nil (fun item _ => skipMwebVarBytes_skips hbuf _ item) _

/-- **The walk over inputs and outputs** ends where they do. -/
theorem skipMwebInsAndOuts_eq (tx : Transaction) {offset : Nat} {tail : Buffer}
    (hat : At buf offset (tx.vin ++ (tx.vout ++ tail))) :
    skipMwebInsAndOuts buf offset = .ok
      { last := offset + tx.vin.length + tx.vout.length
        outsStart := offset + tx.vin.length
        nIns := tx.ins.length } := by
  obtain ⟨hcount, hins⟩ := varItems_at hbuf TxInput.serialize_ne_nil "input count" hat
  have hinputs := Skips.times (fun input _ => skipMwebInput_skips hbuf input) _ _ hins
  have houtputs := skipMwebCounted_skips hbuf TxOutput.serialize_ne_nil
    (fun output _ => skipMwebOutput_skips hbuf output) "output count" _ tail
    (hat.skip : At buf (offset + tx.vin.length) (tx.vout ++ tail))
  have hvin : offset + (compactSize tx.ins.length).length + (tx.ins.flatMap TxInput.serialize).length
      = offset + tx.vin.length := by
    rw [Transaction.vin, varItems, List.length_append, Nat.add_assoc]
  rw [hvin] at hinputs
  simp only [skipMwebInsAndOuts, hcount, bind, Except.bind, hinputs, houtputs]
  rfl

theorem readOutputs_of_at {outs : List TxOutput} {offset : Nat} {tail : Buffer}
    (hat : At buf offset (outs.flatMap TxOutput.serialize ++ tail)) :
    readOutputs buf outs.length offset = .ok outs := by
  induction outs generalizing offset with
  | nil => rfl
  | cons output rest ih =>
      rw [List.flatMap_cons, TxOutput.serialize, List.append_assoc, List.append_assoc] at hat
      have hvalue : readUIntLE buf _ _ = .ok _ := readLE_of_fits hat output.value.toNat_lt
      have hscript := hat.skip
      rw [length_toLE, varBytes, List.append_assoc] at hscript
      have hsafe := count_safe hbuf (n := output.script.length)
        (by rw [List.length_append]; omega) hscript
      have hlength := readMwebCompactSize_of_at "output script" hsafe hscript
      have hbody := hscript.skip
      simp only [List.length_cons, readOutputs, hvalue, hlength, bind, Except.bind,
        ih hbody.skip, subarray_of_at hbody rfl, UInt64.ofNat_toNat]

/-- **The input-less transaction** is built with its own fields. -/
theorem buildInputlessTransaction_eq (tx : Transaction) (hnone : tx.ins = [])
    {start outsStart lockTimeAt : Nat} {rest rest' rest'' : Buffer}
    (hversion : At buf start (tx.versionBytes ++ rest))
    (houts : At buf outsStart (tx.vout ++ rest'))
    (hlocktime : At buf lockTimeAt (tx.locktimeBytes ++ rest'')) :
    buildInputlessTransaction buf start outsStart lockTimeAt = .ok tx := by
  obtain ⟨hcount, hitems⟩ := varItems_at hbuf TxOutput.serialize_ne_nil "output count" houts
  have hread : readUIntLE buf _ _ = .ok _ := readLE_of_fits hversion tx.version.toUInt32.toNat_lt
  have hlock : readUIntLE buf _ _ = .ok _ := readLE_of_fits hlocktime tx.locktime.toNat_lt
  simp only [buildInputlessTransaction, readInt32LE, hread, hcount, hlock,
    readOutputs_of_at hbuf hitems, bind, Except.bind, UInt32.ofNat_toNat]
  obtain ⟨version, ins, outs, locktime⟩ := tx
  obtain rfl : ins = [] := hnone
  simp

/-! ### The whole transaction -/

omit hbuf in
theorem versionBytes_length (tx : Transaction) : tx.versionBytes.length = 4 := length_toLE 4 _

omit hbuf in
theorem locktimeBytes_length (tx : Transaction) : tx.locktimeBytes.length = 4 := length_toLE 4 _

omit hbuf in
/-- The flag's low bit says whether witnesses follow. -/
theorem withWitness_eq (tx : Transaction) (withWitness : Bool) {start : Nat} {tail : Buffer}
    (hat : At buf start (tx.versionBytes ++ (Transaction.mwebMarker withWitness ++ tail))) :
    decide ((buf[start + 5]?.getD 0) &&& 1 = 1) = withWitness := by
  have hmarker := hat.skip
  rw [versionBytes_length] at hmarker
  have hflag : buf[start + 5]? =
      some (if withWitness then litecoinMwebSegwitFlag else litecoinHogexFlag) :=
    hmarker.next.getElem?_eq
  rw [hflag]
  cases withWitness <;> rfl

omit hbuf in
/-- **A flagged transaction is recognised** wherever it stands. -/
theorem hasMwebFlag_of_at {tx : Transaction} {withWitness : Bool} (hflagged : tx.Flagged withWitness)
    {start : Nat} {tail : Buffer}
    (hat : At buf start (tx.versionBytes ++ (Transaction.mwebMarker withWitness ++ tail))) :
    hasMwebFlag buf start = true := by
  have hlength := hat.length_eq
  have hmarker := hat.skip
  rw [versionBytes_length] at hmarker
  have hzero : buf[start + 4]? = some 0x00 := hmarker.getElem?_eq
  have hflag : buf[start + 5]? =
      some (if withWitness then litecoinMwebSegwitFlag else litecoinHogexFlag) :=
    hmarker.next.getElem?_eq
  have hversion : (buf.drop start).take 4 = tx.versionBytes := by
    rw [hat.drop_eq, List.take_left' (versionBytes_length tx)]
  have hvalue : ofLE tx.versionBytes = 1 ∨ ofLE tx.versionBytes = 2 := by
    rw [Transaction.versionBytes, ofLE_toLE]
    rcases hflagged.version with hone | htwo
    · rw [hone]
      exact .inl rfl
    · rw [htwo]
      exact .inr rfl
  rw [List.length_append, List.length_append, versionBytes_length] at hlength
  have hlong : (Transaction.mwebMarker withWitness).length = 2 := rfl
  rw [hasMwebFlag, if_neg (by omega), hversion, hzero, hflag]
  rcases hvalue with hone | htwo
  · rw [hone]
    cases withWitness <;> rfl
  · rw [htwo]
    cases withWitness <;> rfl

theorem skipWitness_eq (tx : Transaction) (withWitness : Bool) {offset : Nat} {tail : Buffer}
    (hat : At buf offset (tx.witnessBytes withWitness ++ tail)) :
    skipFlaggedWitness buf withWitness tx.ins.length offset =
      .ok (offset + (tx.witnessBytes withWitness).length) := by
  cases withWitness with
  | false => rfl
  | true =>
      exact Skips.times (fun input _ => skipMwebStack_skips hbuf input) offset tail hat

/-- What an MWEB part may be: a null tag, or in a standalone transaction a body behind another. -/
inductive MwebPart : (standalone : Bool) → Buffer → Buffer → Prop where
  | null (standalone : Bool) (after : Buffer) : MwebPart standalone [0x00] after
  | body (tag : UInt8) (bytes : Buffer) (htag : tag ≠ 0x00) : MwebPart true (tag :: bytes) []

omit hbuf in
/-- The locktime is found behind the MWEB part. -/
theorem locateLockTime_eq {standalone : Bool} {mweb after locktime : Buffer}
    (hpart : MwebPart standalone mweb after) (hlocktime : locktime.length = 4) {witnessEnd : Nat}
    (hat : At buf witnessEnd (mweb ++ (locktime ++ after))) :
    locateLockTime buf standalone witnessEnd = .ok (witnessEnd + mweb.length) := by
  have hlength := hat.length_eq
  rw [List.length_append, List.length_append, hlocktime] at hlength
  cases hpart with
  | null =>
      have htag : buf[witnessEnd]? = some 0x00 := hat.getElem?_eq
      have hskip : skipMwebBytes buf 1 "MWEB tag" witnessEnd = .ok (witnessEnd + 1) :=
        skipMwebBytes_skips rfl "MWEB tag" _ _ hat
      simp only [locateLockTime, hskip, bind, Except.bind, if_pos htag,
        List.length_cons, List.length_nil, Nat.zero_add]
  | body tag bytes hne =>
      have htag : buf[witnessEnd]? = some tag := hat.getElem?_eq
      have hnull : ¬ buf[witnessEnd]? = some 0x00 := by
        rw [htag]
        simpa using hne
      rw [List.length_cons, List.length_nil] at hlength
      have hshort : ¬ buf.length < witnessEnd + 1 + 4 := by omega
      have hskip : skipMwebBytes buf 1 "MWEB tag" witnessEnd = .ok (witnessEnd + 1) := by
        rw [skipMwebBytes, if_neg (by omega)]
      simp only [locateLockTime, hskip, bind, Except.bind, if_neg hnull, if_neg hshort,
        Bool.true_eq_false, if_false, Except.ok.injEq, List.length_cons]
      omega

/-- **A flagged transaction is read with its own fields**, and to its last byte. -/
theorem readMwebFlaggedTransaction_of_at {bitcoinjs : BitcoinJs} {tx : Transaction}
    {withWitness standalone : Bool} {mweb after : Buffer} (hreads : bitcoinjs.Reads tx withWitness)
    (hpart : MwebPart standalone mweb after) {start : Nat}
    (hat : At buf start (tx.flagged withWitness mweb ++ after)) :
    readMwebFlaggedTransaction bitcoinjs buf start standalone =
      .ok (tx, (tx.flagged withWitness mweb).length) := by
  have hwhole : At buf start (tx.versionBytes ++ (Transaction.mwebMarker withWitness ++ (tx.vin ++
      (tx.vout ++ (tx.witnessBytes withWitness ++ (mweb ++ (tx.locktimeBytes ++ after))))))) := by
    simpa only [Transaction.flagged, List.append_assoc] using hat
  have hvin : At buf (start + 6) (tx.vin ++ (tx.vout ++ (tx.witnessBytes withWitness ++ (mweb ++
      (tx.locktimeBytes ++ after))))) := by
    have hmarker := hwhole.skip
    rw [versionBytes_length] at hmarker
    exact hmarker.skip
  have hwitness := hvin.skip.skip
  have hmweb := hwitness.skip
  have hlock := hmweb.skip
  have hinsOuts := skipMwebInsAndOuts_eq hbuf tx hvin
  have hstacks := skipWitness_eq hbuf tx withWitness hwitness
  have htag := locateLockTime_eq hpart (locktimeBytes_length tx) hmweb
  have hend := skipMwebBytes_skips (locktimeBytes_length tx) "locktime" _ _ hlock
  -- The bytes between the marker and the MWEB part are those bitcoinjs reads.
  have hplain : plainBytes buf start withWitness
      (start + 6 + tx.vin.length + tx.vout.length + (tx.witnessBytes withWitness).length)
      (start + 6 + tx.vin.length + tx.vout.length + (tx.witnessBytes withWitness).length +
        mweb.length)
      (start + 6 + tx.vin.length + tx.vout.length + (tx.witnessBytes withWitness).length +
        mweb.length + tx.locktimeBytes.length) = tx.canonical withWitness := by
    have hversion := subarray_of_at hwhole rfl
    have hlocktime := subarray_of_at hlock rfl
    have hbody : At buf (start + 6) ((tx.vin ++ (tx.vout ++ tx.witnessBytes withWitness)) ++
        (mweb ++ (tx.locktimeBytes ++ after))) := by
      simpa only [List.append_assoc] using hvin
    have hmiddle := subarray_of_at hbody rfl
    simp only [List.length_append, ← Nat.add_assoc] at hmiddle
    rw [versionBytes_length] at hversion
    rw [plainBytes, hversion, hlocktime, hmiddle]
    rfl
  have hbuilt : buildTransaction bitcoinjs buf start withWitness
      { last := start + 6 + tx.vin.length + tx.vout.length
        outsStart := start + 6 + tx.vin.length
        nIns := tx.ins.length }
      (start + 6 + tx.vin.length + tx.vout.length + (tx.witnessBytes withWitness).length)
      (start + 6 + tx.vin.length + tx.vout.length + (tx.witnessBytes withWitness).length +
        mweb.length)
      (start + 6 + tx.vin.length + tx.vout.length + (tx.witnessBytes withWitness).length +
        mweb.length + tx.locktimeBytes.length) = .ok tx := by
    unfold buildTransaction
    dsimp only
    by_cases hnone : tx.ins = []
    · rw [if_pos (by rw [hnone]; rfl)]
      exact buildInputlessTransaction_eq hbuf tx hnone hwhole hvin.skip hlock
    · rw [if_neg fun hzero => hnone (List.length_eq_zero_iff.mp hzero), hplain, hreads hnone]
      rfl
  have hmarkerLength : (Transaction.mwebMarker withWitness).length = 2 := rfl
  simp only [readMwebFlaggedTransaction, withWitness_eq tx withWitness hwhole, hinsOuts, bind,
    Except.bind, hstacks, htag, hend, hbuilt, Except.ok.injEq, Prod.mk.injEq, true_and]
  simp only [Transaction.flagged, List.length_append, versionBytes_length, locktimeBytes_length,
    hmarkerLength]
  omega

/-! ### A block's transactions -/

omit hbuf in
/-- A canonical transaction with inputs is never taken for a flagged one. -/
theorem hasMwebFlag_canonical {tx : Transaction} (hins : tx.ins ≠ []) (withWitness : Bool)
    {start : Nat} {after : Buffer} (hat : At buf start (tx.canonical withWitness ++ after)) :
    hasMwebFlag buf start = false := by
  rw [Transaction.canonical, List.append_assoc] at hat
  have hmarker := hat.skip
  rw [versionBytes_length] at hmarker
  have hbytes : buf[start + 4]? ≠ some 0x00 ∨ buf[start + 5]? = some 0x01 := by
    cases withWitness with
    | true => exact .inr hmarker.next.getElem?_eq
    | false =>
        left
        obtain ⟨byte, rest, hcount, hne⟩ :=
          compactSize_head_ne_zero (List.length_pos_iff.mpr hins)
        have hfirst : buf[start + 4]? = some byte := by
          rw [hmarker.getElem?_eq, Transaction.vin, varItems, hcount]
          rfl
        rw [hfirst]
        simpa using hne
  unfold hasMwebFlag
  split_ifs
  · rfl
  · rcases hbytes with hfirst | hflag
    · simp [hfirst]
    · simp [hflag, litecoinHogexFlag, litecoinMwebSegwitFlag]

/-- bitcoinjs reads the transaction off the front of what is left of a block, and knows its
length. -/
structure BitcoinJs.ReadsFront (bitcoinjs : BitcoinJs) (tx : Transaction) (withWitness : Bool) :
    Prop where
  inputs : tx.ins ≠ []
  front : ∀ rest, bitcoinjs.fromBuffer (tx.canonical withWitness ++ rest) true = .ok tx
  length : bitcoinjs.byteLength tx = (tx.canonical withWitness).length

/-- The transactions of a Litecoin block: canonical ones, then perhaps a flagged one. -/
def blockTransactions (plain : List (Transaction × Bool)) (hogEx : Option (Transaction × Bool)) :
    Buffer :=
  plain.flatMap (fun entry => entry.1.canonical entry.2) ++
    hogEx.elim [] fun entry => entry.1.flagged entry.2 [0x00]

/-- **A block's transactions are read back in order**, and the last one is reported flagged exactly
when it is: an MWEB extension is then looked for, and only then. -/
theorem readMwebTransactions_of_at {bitcoinjs : BitcoinJs} {plain : List (Transaction × Bool)}
    {hogEx : Option (Transaction × Bool)}
    (hplain : ∀ entry ∈ plain, bitcoinjs.ReadsFront entry.1 entry.2)
    (hhogEx : ∀ entry ∈ hogEx, entry.1.Flagged entry.2 ∧ bitcoinjs.Reads entry.1 entry.2)
    {offset : Nat} {after : Buffer} (hat : At buf offset (blockTransactions plain hogEx ++ after)) :
    readMwebTransactions bitcoinjs buf (plain.length + hogEx.toList.length) offset =
      .ok (plain.map Prod.fst ++ hogEx.toList.map Prod.fst, hogEx.isSome,
        offset + (blockTransactions plain hogEx).length) := by
  induction plain generalizing offset with
  | nil =>
      cases hogEx with
      | none => rfl
      | some entry =>
          obtain ⟨hflagged, hreads⟩ := hhogEx entry rfl
          have hflag : hasMwebFlag buf offset = true := by
            have hfront := hat
            simp only [blockTransactions, Option.elim_some, List.flatMap_nil, List.nil_append,
              Transaction.flagged, List.append_assoc] at hfront
            exact hasMwebFlag_of_at hflagged hfront
          have hread := readMwebFlaggedTransaction_of_at hbuf hreads (.null false after) hat
          simp only [Option.toList_some, List.length_cons, List.length_nil, Nat.zero_add,
            readMwebTransactions, hflag, and_self, if_true, hread, bind, Except.bind]
          rfl
  | cons entry rest ih =>
      obtain ⟨hins, hfront, hlength⟩ := hplain entry List.mem_cons_self
      have hsplit : blockTransactions (entry :: rest) hogEx =
          entry.1.canonical entry.2 ++ blockTransactions rest hogEx := by
        rw [blockTransactions, List.flatMap_cons, List.append_assoc]
        rfl
      rw [hsplit, List.append_assoc] at hat
      have hplainFlag : ¬ (rest.length + hogEx.toList.length = 0 ∧ hasMwebFlag buf offset = true) := by
        rw [hasMwebFlag_canonical hins entry.2 hat]
        exact fun hboth => Bool.false_ne_true hboth.2
      have hread : bitcoinjs.fromBuffer (buf.drop offset) true = .ok entry.1 := by
        rw [hat.drop_eq]
        exact hfront _
      have hrest := ih (fun other hmem => hplain other (List.mem_cons_of_mem _ hmem)) hat.skip
      have hcount : (entry :: rest).length + hogEx.toList.length =
          rest.length + hogEx.toList.length + 1 := by
        rw [List.length_cons]
        omega
      rw [hcount, readMwebTransactions, if_neg hplainFlag, hread]
      simp only [Except.mapError, bind, Except.bind, hlength, hrest]
      rw [hsplit, List.length_append, Nat.add_assoc]
      rfl

end Reading

/-! ### Any bytes at all -/

section Bounds

variable {buf : Buffer}

/-- An error that is thrown for what the bytes say, not by a read past their end. -/
def Named (e : DecodeError) : Prop := e ≠ .outOfRange

theorem skipMwebBytes_walks (size : Nat) (what : String) :
    Walks buf Named size (skipMwebBytes buf size what) := by
  intro offset hle
  unfold skipMwebBytes
  split
  · rename_i hrun
    split at hrun
    · cases hrun
    · cases hrun
      exact ⟨le_rfl, by omega⟩
  · rename_i hrun
    split at hrun
    · cases hrun
      exact DecodeError.noConfusion
    · cases hrun

theorem skipMwebBytes_ok {count offset last : Nat} {what : String}
    (hrun : skipMwebBytes buf count what offset = .ok last) : last = offset + count := by
  unfold skipMwebBytes at hrun
  split at hrun
  · cases hrun
  · exact (Except.ok.inj hrun).symm

/-- A CompactSize takes at least one byte. -/
theorem readMwebCompactSize_walks (what : String) :
    (∀ {offset value last : Nat}, offset ≤ buf.length →
      readMwebCompactSize buf what offset = .ok (value, last) →
        offset + 1 ≤ last ∧ last ≤ buf.length) ∧
    ∀ {offset : Nat} {e : DecodeError}, offset ≤ buf.length →
      readMwebCompactSize buf what offset = .error e → Named e := by
  have hcases : ∀ {offset : Nat}, offset ≤ buf.length →
      match readMwebCompactSize buf what offset with
      | .ok (_, last) => offset + 1 ≤ last ∧ last ≤ buf.length
      | .error e => Named e := by
    intro offset hle
    unfold readMwebCompactSize
    cases hfirst : buf[offset]? with
    | none => exact DecodeError.noConfusion
    | some first =>
        have hlt := (List.getElem?_eq_some_iff.mp hfirst).1
        dsimp only
        split_ifs with hone
        · exact ⟨le_rfl, hlt⟩
        · cases hskip : skipMwebBytes buf (mwebWidth first) what (offset + 1) with
          | error e => exact (skipMwebBytes_walks _ what).error hlt hskip
          | ok last =>
              obtain ⟨hmove, hinside⟩ := (skipMwebBytes_walks _ what).ok hlt hskip
              obtain ⟨value, hvalue⟩ : ∃ value, readUIntLE buf _ _ = .ok value :=
                readLE_ok (Nat.le_trans hmove hinside)
              simp only [bind, Except.bind, hvalue]
              split_ifs
              · exact DecodeError.noConfusion
              · exact ⟨by omega, hinside⟩
  refine ⟨fun hle hrun => ?_, fun hle hrun => ?_⟩
  · have := hcases hle
    rwa [hrun] at this
  · have := hcases hle
    rwa [hrun] at this

/-- A count that moves the reader on, then a reader that takes it. -/
theorem compactSize_bind {what : String} {f : Nat → Nat → Except DecodeError Nat}
    (hf : ∀ value, Walks buf Named 0 (f value)) :
    Walks buf Named 1 (fun offset => readMwebCompactSize buf what offset >>= fun read =>
      f read.1 read.2) := by
  intro offset hle
  cases hread : readMwebCompactSize buf what offset with
  | error e =>
      simp only [hread, bind, Except.bind]
      exact (readMwebCompactSize_walks what).2 hle hread
  | ok read =>
      obtain ⟨value, last⟩ := read
      obtain ⟨hmove, hinside⟩ := (readMwebCompactSize_walks what).1 hle hread
      simp only [hread, bind, Except.bind]
      cases hrest : f value last with
      | error e => exact (hf value).error hinside hrest
      | ok next =>
          obtain ⟨hmove', hinside'⟩ := (hf value).ok hinside hrest
          exact ⟨by omega, hinside'⟩

theorem skipMwebVarBytes_walks (what : String) : Walks buf Named 1 (skipMwebVarBytes buf what) :=
  compactSize_bind fun value => (skipMwebBytes_walks value what).mono (Nat.zero_le _)

theorem skipMwebCounted_walks {skip : Nat → Except DecodeError Nat} {least : Nat} (what : String)
    (hskip : Walks buf Named least skip) : Walks buf Named 1 (skipMwebCounted buf what skip) :=
  compactSize_bind fun count => hskip.times count

theorem skipMwebInput_walks : Walks buf Named 1 (skipMwebInput buf) := by
  refine ((skipMwebBytes_walks 36 _).bind ?_).mono (by decide : 1 ≤ 36 + (1 + 4))
  exact (skipMwebVarBytes_walks _).bind (skipMwebBytes_walks 4 _)

theorem skipMwebOutput_walks : Walks buf Named 1 (skipMwebOutput buf) :=
  ((skipMwebBytes_walks 8 _).bind (skipMwebVarBytes_walks _)).mono (by decide : 1 ≤ 8 + 1)

theorem skipMwebStack_walks : Walks buf Named 1 (skipMwebStack buf) :=
  skipMwebCounted_walks _ (skipMwebVarBytes_walks _)

theorem skipFlaggedWitness_walks (withWitness : Bool) (nIns : Nat) :
    Walks buf Named 0 (skipFlaggedWitness buf withWitness nIns) := by
  cases withWitness with
  | false => exact fun offset hle => ⟨le_rfl, hle⟩
  | true => exact skipMwebStack_walks.times nIns

theorem locateLockTime_walks (standalone : Bool) :
    Walks buf Named 1 (locateLockTime buf standalone) := by
  intro offset hle
  unfold locateLockTime
  cases hskip : skipMwebBytes buf 1 "MWEB tag" offset with
  | error e => exact (skipMwebBytes_walks 1 _).error hle hskip
  | ok next =>
      obtain ⟨hmove, hinside⟩ := (skipMwebBytes_walks 1 _).ok hle hskip
      simp only [bind, Except.bind]
      split_ifs
      · exact ⟨hmove, hinside⟩
      · exact DecodeError.noConfusion
      · exact DecodeError.noConfusion
      · exact ⟨by omega, by omega⟩

/-- The outputs that the walk has passed over are read. -/
theorem readOutputs_of_walk {count offset last : Nat} (hle : offset ≤ buf.length)
    (hrun : skipTimes (skipMwebOutput buf) count offset = .ok last) :
    ∃ outs, readOutputs buf count offset = .ok outs := by
  induction count generalizing offset with
  | zero => exact ⟨[], rfl⟩
  | succ count ih =>
      cases hround : skipMwebOutput buf offset with
      | error e => simp [skipTimes, hround, bind, Except.bind] at hrun
      | ok next =>
          obtain ⟨-, hinside⟩ := skipMwebOutput_walks.ok hle hround
          simp only [skipTimes, hround, bind, Except.bind] at hrun
          obtain ⟨outs, houts⟩ := ih hinside hrun
          -- The round has read the value's bytes and the script's length.
          cases hvalue : skipMwebBytes buf 8 "output value" offset with
          | error e => simp [skipMwebOutput, hvalue, bind, Except.bind] at hround
          | ok scriptLengthAt =>
              obtain ⟨hmove, hwithin⟩ := (skipMwebBytes_walks 8 _).ok hle hvalue
              obtain ⟨value, hread⟩ : ∃ value, readUIntLE buf _ _ = .ok value :=
                readLE_ok (Nat.le_trans hmove hwithin)
              obtain rfl := skipMwebBytes_ok hvalue
              cases hlength : readMwebCompactSize buf "output script" (offset + 8) with
              | error e =>
                  simp [skipMwebOutput, skipMwebVarBytes, hvalue, hlength, bind,
                    Except.bind] at hround
              | ok read =>
                  obtain ⟨length, scriptAt⟩ := read
                  have hscript : skipMwebBytes buf length "output script" scriptAt = .ok next := by
                    simpa only [skipMwebOutput, skipMwebVarBytes, hvalue, hlength, bind,
                      Except.bind] using hround
                  rw [skipMwebBytes_ok hscript] at houts
                  refine ⟨{ script := subarray buf scriptAt (scriptAt + length), value := .ofNat value }
                    :: outs, ?_⟩
                  simp only [readOutputs, hread, hlength, houts, bind, Except.bind]

variable (buf) in
theorem skipMwebInsAndOuts_walks {offset : Nat} (hle : offset ≤ buf.length) :
    match skipMwebInsAndOuts buf offset with
    | .ok insOuts => offset ≤ insOuts.outsStart ∧ insOuts.outsStart ≤ buf.length ∧
        insOuts.last ≤ buf.length ∧
        skipMwebCounted buf "output count" (skipMwebOutput buf) insOuts.outsStart =
          .ok insOuts.last
    | .error e => Named e := by
  unfold skipMwebInsAndOuts
  cases hcount : readMwebCompactSize buf "input count" offset with
  | error e =>
      simp only [bind, Except.bind]
      exact (readMwebCompactSize_walks _).2 hle hcount
  | ok read =>
      obtain ⟨nIns, insAt⟩ := read
      obtain ⟨hmove, hinside⟩ := (readMwebCompactSize_walks _).1 hle hcount
      simp only [bind, Except.bind]
      cases hins : skipTimes (skipMwebInput buf) nIns insAt with
      | error e => exact (skipMwebInput_walks.times nIns).error hinside hins
      | ok outsStart =>
          obtain ⟨hmove', hinside'⟩ := (skipMwebInput_walks.times nIns).ok hinside hins
          dsimp only
          cases houts : skipMwebCounted buf "output count" (skipMwebOutput buf) outsStart with
          | error e => exact (skipMwebCounted_walks _ skipMwebOutput_walks).error hinside' houts
          | ok last =>
              obtain ⟨-, hinside''⟩ :=
                (skipMwebCounted_walks _ skipMwebOutput_walks).ok hinside' houts
              have hbehind : offset ≤ outsStart := by omega
              exact ⟨hbehind, hinside', hinside'', houts⟩

/-- Building the transaction reads nothing the walk has not passed over. -/
theorem buildTransaction_named {bitcoinjs : BitcoinJs} {start witnessEnd lockTimeAt last : Nat}
    {withWitness : Bool} {insOuts : InsAndOuts} (hstart : start + 4 ≤ buf.length)
    (houtsStart : insOuts.outsStart ≤ buf.length)
    (houts : skipMwebCounted buf "output count" (skipMwebOutput buf) insOuts.outsStart =
      .ok insOuts.last) (hlock : lockTimeAt + 4 ≤ buf.length) {e : DecodeError}
    (hrun : buildTransaction bitcoinjs buf start withWitness insOuts witnessEnd lockTimeAt last =
      .error e) : Named e := by
  unfold buildTransaction at hrun
  split_ifs at hrun
  · exfalso
    obtain ⟨version, hversion⟩ : ∃ version, readUIntLE buf _ _ = .ok version := readLE_ok hstart
    obtain ⟨locktime, hlocktime⟩ : ∃ locktime, readUIntLE buf _ _ = .ok locktime := readLE_ok hlock
    cases hcount : readMwebCompactSize buf "output count" insOuts.outsStart with
    | error e' => simp [skipMwebCounted, hcount, bind, Except.bind] at houts
    | ok read =>
        obtain ⟨nOuts, outsAt⟩ := read
        obtain ⟨-, hinside⟩ := (readMwebCompactSize_walks _).1 houtsStart hcount
        simp only [skipMwebCounted, hcount, bind, Except.bind] at houts
        obtain ⟨outs, hread⟩ := readOutputs_of_walk hinside houts
        simp only [buildInputlessTransaction, readInt32LE, hversion, hcount, hread, hlocktime,
          bind, Except.bind] at hrun
        cases hrun
  · cases hparse : bitcoinjs.fromBuffer
        (plainBytes buf start withWitness witnessEnd lockTimeAt last) false with
    | ok tx =>
        rw [hparse] at hrun
        cases hrun
    | error message =>
        rw [hparse] at hrun
        cases hrun
        exact DecodeError.noConfusion

/-- **The reader stays inside the buffer**, whatever the bytes. -/
theorem readMwebFlaggedTransaction_bounded (bitcoinjs : BitcoinJs) {start : Nat}
    (standalone : Bool) (hstart : start ≤ buf.length) :
    match readMwebFlaggedTransaction bitcoinjs buf start standalone with
    | .ok (_, consumed) => start + consumed ≤ buf.length
    | .error e => Named e := by
  unfold readMwebFlaggedTransaction
  dsimp only
  by_cases hshort : buf.length < start + 6
  · have hcount : skipMwebInsAndOuts buf (start + 6) =
        .error (mwebShortError "input count") := by
      simp only [skipMwebInsAndOuts, readMwebCompactSize,
        List.getElem?_eq_none (by omega : buf.length ≤ start + 6), bind, Except.bind]
    simp only [hcount, bind, Except.bind]
    exact DecodeError.noConfusion
  have hwalk := skipMwebInsAndOuts_walks buf (by omega : start + 6 ≤ buf.length)
  cases hinsOuts : skipMwebInsAndOuts buf (start + 6) with
  | error e =>
      rw [hinsOuts] at hwalk
      simpa only [bind, Except.bind] using hwalk
  | ok insOuts =>
      rw [hinsOuts] at hwalk
      obtain ⟨hmove, houtsStart, hlast, houts⟩ := hwalk
      simp only [bind, Except.bind]
      generalize decide ((buf[start + 5]?.getD 0) &&& 1 = 1) = withWitness
      cases hwitness : skipFlaggedWitness buf withWitness insOuts.nIns insOuts.last with
      | error e => exact (skipFlaggedWitness_walks _ _).error hlast hwitness
      | ok witnessEnd =>
          obtain ⟨-, hwitnessEnd⟩ := (skipFlaggedWitness_walks _ _).ok hlast hwitness
          dsimp only
          cases htag : locateLockTime buf standalone witnessEnd with
          | error e => exact (locateLockTime_walks _).error hwitnessEnd htag
          | ok lockTimeAt =>
              obtain ⟨-, hlockTimeAt⟩ := (locateLockTime_walks _).ok hwitnessEnd htag
              dsimp only
              cases hend : skipMwebBytes buf 4 "locktime" lockTimeAt with
              | error e => exact (skipMwebBytes_walks 4 _).error hlockTimeAt hend
              | ok last =>
                  obtain ⟨hmove', hinside⟩ := (skipMwebBytes_walks 4 _).ok hlockTimeAt hend
                  dsimp only
                  cases hbuilt : buildTransaction bitcoinjs buf start withWitness insOuts witnessEnd
                      lockTimeAt last with
                  | error e =>
                      exact buildTransaction_named (by omega) houtsStart houts (by omega) hbuilt
                  | ok tx =>
                      dsimp only
                      omega

end Bounds

/-! ### Hex text -/

theorem digits_toHex (bytes : Buffer) :
    (toHex bytes).all (fun c => (HexText.digitValue c).isSome) = true := by
  rw [List.all_eq_true]
  intro c hmem
  obtain ⟨byte, -, hin⟩ := List.mem_flatMap.mp hmem
  exact HexText.isHexDigit_of_mem_write hin

/-- A standalone flagged transaction passes through its hex text. -/
theorem txFromHex_eq {bitcoinjs : BitcoinJs} {buffer : Buffer} {tx : Transaction}
    (hflag : hasMwebFlag buffer 0 = true)
    (hread : readMwebFlaggedTransaction bitcoinjs buffer 0 true = .ok (tx, buffer.length)) :
    txFromHex bitcoinjs "mweb" (toHex buffer) = .ok tx := by
  have hne : buffer ≠ [] := by
    rintro rfl
    exact absurd hflag (by decide)
  have hlength := length_toHex buffer
  have hpos := List.length_pos_iff.mpr hne
  have htext : ¬ (toHex buffer = [] ∨ (toHex buffer).length % 2 ≠ 0 ∨
      ¬ (toHex buffer).all fun c => (HexText.digitValue c).isSome) := by
    rintro (hnil | hodd | hdigits)
    · rw [hnil, List.length_nil] at hlength
      omega
    · omega
    · exact hdigits (digits_toHex buffer)
  have hwhole : txFromBuffer bitcoinjs "mweb" buffer = .ok tx := by
    rw [txFromBuffer, if_pos ⟨rfl, hflag⟩]
    simp only [hread, bind, Except.bind, ne_eq, not_true_eq_false, if_false]
  rw [txFromHex, if_neg htext, ofHex_toHex, hwhole]
  rfl

/-- **The reader of flagged transactions.** In a block, anywhere and with anything behind it, and
alone around any MWEB body, a flagged transaction is read with its own fields and to its last byte.
On any bytes the walk ends: it fails by name, or stays in the buffer, and no loop makes more rounds
than there are bytes left, and one. -/
theorem mweb_transactions_read (bitcoinjs : BitcoinJs) :
    (∀ (tx : Transaction) (withWitness standalone : Bool) (before after : Buffer),
      tx.Flagged withWitness → bitcoinjs.Reads tx withWitness →
      (before ++ (tx.flagged withWitness [0x00] ++ after)).length ≤ maxSafeInteger →
      hasMwebFlag (before ++ (tx.flagged withWitness [0x00] ++ after)) before.length = true ∧
      readMwebFlaggedTransaction bitcoinjs (before ++ (tx.flagged withWitness [0x00] ++ after))
        before.length standalone = .ok (tx, (tx.flagged withWitness [0x00]).length)) ∧
    (∀ (tx : Transaction) (withWitness : Bool) (tag : UInt8) (body : Buffer),
      tx.Flagged withWitness → bitcoinjs.Reads tx withWitness → tag ≠ 0x00 →
      (tx.flagged withWitness (tag :: body)).length ≤ maxSafeInteger →
      readMwebFlaggedTransaction bitcoinjs (tx.flagged withWitness (tag :: body)) 0 true =
        .ok (tx, (tx.flagged withWitness (tag :: body)).length) ∧
      txFromHex bitcoinjs "mweb" (toHex (tx.flagged withWitness (tag :: body))) = .ok tx) ∧
    (∀ (buf : Buffer) (start : Nat) (standalone : Bool), start ≤ buf.length →
      match readMwebFlaggedTransaction bitcoinjs buf start standalone with
      | .ok (_, consumed) => start + consumed ≤ buf.length
      | .error e => e ≠ .outOfRange) ∧
    ∀ (buf : Buffer) (offset count : Nat), offset ≤ buf.length →
      rounds (skipMwebInput buf) count offset ≤ buf.length - offset + 1 ∧
      rounds (skipMwebOutput buf) count offset ≤ buf.length - offset + 1 ∧
      rounds (skipMwebStack buf) count offset ≤ buf.length - offset + 1 ∧
      rounds (skipMwebVarBytes buf "witness item") count offset ≤ buf.length - offset + 1 := by
  refine ⟨?_, ?_, ?_, ?_⟩
  · intro tx withWitness standalone before after hflagged hreads hbuf
    have hat : At (before ++ (tx.flagged withWitness [0x00] ++ after)) before.length
        (tx.flagged withWitness [0x00] ++ after) := ⟨before, rfl, rfl⟩
    refine ⟨?_, readMwebFlaggedTransaction_of_at hbuf hreads (.null standalone after) hat⟩
    simp only [Transaction.flagged, List.append_assoc] at hat ⊢
    exact hasMwebFlag_of_at hflagged hat
  · intro tx withWitness tag body hflagged hreads htag hbuf
    have hat := At.start (tx.flagged withWitness (tag :: body))
    have hwhole : At (tx.flagged withWitness (tag :: body)) 0
        (tx.flagged withWitness (tag :: body) ++ []) := by
      rwa [List.append_nil]
    have hread := readMwebFlaggedTransaction_of_at hbuf hreads (.body tag body htag) hwhole
    exact ⟨hread, txFromHex_eq (hasMwebFlag_of_at hflagged hat) hread⟩
  · intro buf start standalone hstart
    exact readMwebFlaggedTransaction_bounded bitcoinjs standalone hstart
  · intro buf offset count hle
    exact ⟨skipMwebInput_walks.rounds_le count hle, skipMwebOutput_walks.rounds_le count hle,
      skipMwebStack_walks.rounds_le count hle, (skipMwebVarBytes_walks _).rounds_le count hle⟩

/-- A transaction with one input and its witness. -/
def witnessedTx : Transaction where
  version := 2
  ins := [{ hash := List.replicate 32 7, index := 1, script := [], sequence := 0xFFFFFFFF,
            witness := [[1, 2], []], hash_length := rfl }]
  outs := [{ script := [0x51], value := 5000 }]
  locktime := 9

/-- A transaction from the MWEB side, without inputs. -/
def inputlessTx : Transaction where
  version := 1
  ins := []
  outs := [{ script := [0x51, 0x52], value := 1 }]
  locktime := 0

/-- bitcoinjs, on the canonical bytes of that transaction. -/
def witnessedTxReader : BitcoinJs where
  fromBuffer bytes _ :=
    if bytes = witnessedTx.canonical true then .ok witnessedTx
    else .error "Transaction has unexpected data"
  byteLength tx := (tx.canonical true).length

theorem mweb_transactions_read_witnessedTx :
    readMwebFlaggedTransaction witnessedTxReader ([4] ++ (witnessedTx.flagged true [0x00] ++ [5, 6]))
        1 false = .ok (witnessedTx, (witnessedTx.flagged true [0x00]).length) ∧
      txFromHex witnessedTxReader "mweb" (toHex (inputlessTx.flagged false [3, 1, 4])) =
        .ok inputlessTx := by
  obtain ⟨hblock, halone, -, -⟩ := mweb_transactions_read witnessedTxReader
  have hflagged : witnessedTx.Flagged true :=
    ⟨.inr rfl, fun h => absurd h (by decide),
      fun _ _ => ⟨_, List.mem_cons_self, List.cons_ne_nil _ _⟩⟩
  have hinputless : inputlessTx.Flagged false :=
    ⟨.inl rfl, fun _ input hmem => absurd hmem List.not_mem_nil, fun h => absurd h (by decide)⟩
  have hreads : witnessedTxReader.Reads witnessedTx true := fun _ => by
    simp only [witnessedTxReader, if_true]
  have hread := hblock witnessedTx true false [4] [5, 6] hflagged hreads (by decide)
  have hhex := halone inputlessTx false 3 [1, 4] hinputless (fun h => absurd rfl h) (by decide)
    (by decide)
  exact ⟨hread.2, hhex.2⟩

end UtxoTracker.BlockDecoder

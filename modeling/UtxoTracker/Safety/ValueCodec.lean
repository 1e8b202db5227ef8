import UtxoTracker.Lib.Fallible
import UtxoTracker.Safety.KeyCodec
import UtxoTracker.Store.ValueCodec
/-!
# The `O` value comes back from its bytes

What `encodeOutput` writes in closed form, and from it: decoding gives the fields back, encoding the
decoded fields gives the bytes back, and the bulk pipeline reaches the same bytes.
-/

namespace UtxoTracker.ValueCodec

open ByteString Fallible

/-! ### Fields of a buffer -/

@[simp] theorem length_alloc (size : Nat) : (alloc size).length = size := List.length_replicate

@[simp] theorem alloc_zero : alloc 0 = [] := List.replicate_zero

theorem alloc_add (n m : Nat) : alloc (n + m) = alloc n ++ alloc m :=
  (List.replicate_append_replicate).symm

theorem subarray_append (before field rest : List UInt8) {offset width : Nat}
    (hoffset : before.length = offset) (hwidth : field.length = width) :
    subarray (before ++ (field ++ rest)) offset width = field := by
  rw [subarray, ← hoffset, List.drop_left, ← hwidth, List.take_left]

theorem writeAt_field (before old rest bytes : List UInt8) {offset : Nat}
    (hoffset : before.length = offset) (hlength : old.length = bytes.length) :
    writeAt (before ++ (old ++ rest)) offset bytes = before ++ (bytes ++ rest) :=
  hoffset ▸ writeAt_append before old rest bytes hlength

/-- The fields of an `O` value. -/
structure Fields where
  value : Nat
  value_lt : value < 2 ^ 64
  height : Int
  height_ge : -2 ^ 31 ≤ height
  height_lt : height < 2 ^ 31
  txid : List UInt8
  length_txid : txid.length = 32
  coinbase : Bool

namespace Fields

variable (f : Fields)

def valueBytes : List UInt8 := toBE 8 f.value

def heightBytes : List UInt8 := toIntBE 4 f.height

/-- The flag is there only for a coinbase output. -/
def flag : List UInt8 := if f.coinbase then [1] else []

def bytes : List UInt8 := f.valueBytes ++ (f.heightBytes ++ (f.txid ++ f.flag))

@[simp] theorem length_valueBytes : f.valueBytes.length = 8 := length_toBE 8 _

@[simp] theorem length_heightBytes : f.heightBytes.length = 4 := length_toIntBE 4 _

theorem length_bytes : f.bytes.length = if f.coinbase then 45 else 44 := by
  rw [bytes, List.length_append, List.length_append, List.length_append, length_valueBytes,
    length_heightBytes, f.length_txid, flag]
  split_ifs <;> rfl

theorem ofBE_valueBytes : ofBE f.valueBytes = f.value :=
  ofBE_toBE_of_lt (show f.value < 256 ^ 8 from f.value_lt)

theorem ofIntBE_heightBytes : ofIntBE f.heightBytes = f.height := by
  have hge := f.height_ge
  have hlt := f.height_lt
  apply ofIntBE_toIntBE <;> omega

/-! ### Reading -/

/-- The readers find the fields of a value that a flag may follow. -/
theorem read {buf rest : List UInt8}
    (hbuf : buf = f.valueBytes ++ (f.heightBytes ++ (f.txid ++ rest))) :
    readBigUInt64BE buf 0 = .ok f.value ∧ readInt32BE buf 8 = .ok f.height ∧
      subarray buf 12 32 = f.txid ∧ buf[44]? = rest.head? := by
  have hlength : buf.length = 44 + rest.length := by
    rw [hbuf, List.length_append, List.length_append, List.length_append, length_valueBytes,
      length_heightBytes, f.length_txid]
    omega
  have hvalue : subarray buf 0 8 = f.valueBytes :=
    hbuf ▸ subarray_append [] _ _ rfl f.length_valueBytes
  have hheight : subarray buf 8 4 = f.heightBytes :=
    hbuf ▸ subarray_append f.valueBytes _ _ f.length_valueBytes f.length_heightBytes
  have hsplit : buf = (f.valueBytes ++ f.heightBytes) ++ (f.txid ++ rest) := by
    rw [hbuf, List.append_assoc]
  refine ⟨?_, ?_, ?_, ?_⟩
  · rw [readBigUInt64BE, if_neg (by omega), hvalue, ofBE_valueBytes]
  · rw [readInt32BE, if_neg (by omega), hheight, ofIntBE_heightBytes]
  · rw [hsplit]
    exact subarray_append _ _ _ (by simp) f.length_txid
  · rw [hsplit, ← List.append_assoc, List.getElem?_append_right (by simp [f.length_txid])]
    simp [f.length_txid, List.head?_eq_getElem?]

/-- The coinbase flag of a value that ends with the bulk pipeline's flag byte. -/
theorem coinbase_of_flag {buf : List UInt8} {flag : UInt8}
    (hbuf : buf = f.valueBytes ++ (f.heightBytes ++ (f.txid ++ [flag]))) :
    (decide (44 < buf.length) && decide (buf[44]? = some 1)) = decide (flag = 1) := by
  have hlast := (f.read hbuf).2.2.2
  have hlength : buf.length = 45 := by
    rw [hbuf, List.length_append, List.length_append, List.length_append, length_valueBytes,
      length_heightBytes, f.length_txid, List.length_singleton]
  rw [hlast, hlength]
  simp

/-- What a value decodes to. -/
def decoded : DecodedOutput :=
  { v := Nat.repr f.value
    h := f.height
    t := if toHex f.txid = ZERO_HASH then none else some (toHex f.txid)
    cb := f.coinbase }

theorem decodeOutput_bytes : decodeOutput f.bytes = .ok f.decoded := by
  obtain ⟨hvalue, hheight, htxid, hflag⟩ := f.read
    (show f.bytes = f.valueBytes ++ (f.heightBytes ++ (f.txid ++ f.flag)) from rfl)
  have hcoinbase : (decide (44 < f.bytes.length) && decide (f.bytes[44]? = some 1)) =
      f.coinbase := by
    rw [hflag, f.length_bytes, flag]
    cases f.coinbase <;> rfl
  simp only [decodeOutput, hvalue, hheight, htxid, hcoinbase, bind, Except.bind]
  rfl

end Fields

/-! ### Writing -/

/-- The txid field that a text leaves: short of 32 bytes, the rest stays zero. -/
inductive TxidWritten : Option (List Char) → List UInt8 → Prop where
  | none : TxidWritten none (alloc 32)
  | empty : TxidWritten (some []) (alloc 32)
  | text {hex : List Char} (hlength : hex.length = 64) :
      TxidWritten (some hex) (ofHex hex ++ alloc (32 - (ofHex hex).length))

theorem TxidWritten.length_eq {hex : Option (List Char)} {txid : List UInt8}
    (hwritten : TxidWritten hex txid) : txid.length = 32 := by
  cases hwritten with
  | none | empty => exact length_alloc 32
  | @text hex hlength =>
      have hle := length_ofHex_le hex
      rw [List.length_append, length_alloc]
      omega

/-- A txid in lower-case digits is written whole. -/
theorem TxidWritten.of_bytes {txid : List UInt8} (hlength : txid.length = 32) :
    TxidWritten (some (toHex txid)) txid := by
  have htext : (toHex txid).length = 64 := by rw [length_toHex, hlength]
  have hwritten := TxidWritten.text htext
  rwa [ofHex_toHex, hlength, Nat.sub_self, alloc_zero, List.append_nil] at hwritten

theorem writeFullTxHash_cons (buf : List UInt8) (c : Char) (cs : List Char) :
    writeFullTxHash buf (some (c :: cs)) =
      if (c :: cs).length ≠ 64 then
        .error (.message ("encodeOutput expects a 64-hex (32-byte) fullTxHash, got " ++
          toString (c :: cs).length ++ " chars"))
      else .ok (writeAt buf 12 (ofHex (c :: cs))) := rfl

theorem writeFullTxHash_ok_iff {before rest buf : List UInt8} {hex : Option (List Char)}
    (hbefore : before.length = 12) :
    writeFullTxHash (before ++ (alloc 32 ++ rest)) hex = .ok buf ↔
      ∃ txid, TxidWritten hex txid ∧ buf = before ++ (txid ++ rest) := by
  rcases hex with _ | hex
  · rw [writeFullTxHash, Except.ok.injEq]
    constructor
    · rintro rfl
      exact ⟨_, .none, rfl⟩
    · rintro ⟨txid, hwritten, rfl⟩
      cases hwritten
      rfl
  · cases hex with
    | nil =>
        rw [writeFullTxHash, Except.ok.injEq]
        constructor
        · rintro rfl
          exact ⟨_, .empty, rfl⟩
        · rintro ⟨txid, hwritten, rfl⟩
          cases hwritten with
          | empty => rfl
          | text hlength => cases hlength
    | cons c cs =>
        rw [writeFullTxHash_cons]
        by_cases hlength : (c :: cs).length = 64
        · have hle := length_ofHex_le (c :: cs)
          have hsplit : alloc 32 = alloc (ofHex (c :: cs)).length ++
              alloc (32 - (ofHex (c :: cs)).length) := by
            rw [← alloc_add]
            congr 1
            omega
          rw [if_neg (not_not.mpr hlength), Except.ok.injEq, hsplit, List.append_assoc,
            writeAt_field before _ _ _ hbefore (length_alloc _), ← List.append_assoc (ofHex _)]
          constructor
          · rintro rfl
            exact ⟨_, .text hlength, rfl⟩
          · rintro ⟨txid, hwritten, rfl⟩
            cases hwritten with
            | text _ => rfl
        · rw [if_pos hlength]
          refine iff_of_false (by simp) ?_
          rintro ⟨txid, hwritten, -⟩
          cases hwritten with
          | text hlength' => exact hlength hlength'

variable {value : BigIntSource} {height : Option Int} {hex : Option (List Char)} {cb : Bool}
  {bytes : List UInt8}

theorem writeBigUInt64BE_ok_iff {n : Int} {rest buf : List UInt8} :
    writeBigUInt64BE (alloc 8 ++ rest) n 0 = .ok buf ↔
      ∃ v : Nat, n = v ∧ v < 2 ^ 64 ∧ buf = toBE 8 v ++ rest := by
  rw [writeBigUInt64BE]
  split_ifs with hrange
  · refine iff_of_false (by simp) ?_
    rintro ⟨v, rfl, hlt, -⟩
    omega
  · have hwrite : writeAt (alloc 8 ++ rest) 0 (toBE 8 n.toNat) = toBE 8 n.toNat ++ rest :=
      writeAt_field [] (alloc 8) rest (toBE 8 n.toNat) rfl (by simp)
    rw [Except.ok.injEq, hwrite]
    constructor
    · rintro rfl
      exact ⟨n.toNat, by omega, by omega, rfl⟩
    · rintro ⟨v, rfl, -, rfl⟩
      rfl

theorem writeInt32BE_ok_iff {h : Int} {before rest buf : List UInt8} (hbefore : before.length = 8) :
    writeInt32BE (before ++ (alloc 4 ++ rest)) h 8 = .ok buf ↔
      -2 ^ 31 ≤ h ∧ h < 2 ^ 31 ∧ buf = before ++ (toIntBE 4 h ++ rest) := by
  rw [writeInt32BE]
  split_ifs with hrange
  · refine iff_of_false (by simp) ?_
    rintro ⟨hge, hlt, -⟩
    omega
  · rw [Except.ok.injEq, writeAt_field before _ _ _ hbefore (by simp)]
    constructor
    · rintro rfl
      exact ⟨by omega, by omega, rfl⟩
    · rintro ⟨-, -, rfl⟩
      rfl

/-- The flag is set in a buffer one byte longer. -/
theorem set_flag {before : List UInt8} (hlength : before.length = 44) (cb : Bool) :
    (if cb then (before ++ if cb then [0] else []).set 44 1 else before ++ if cb then [0] else []) =
      before ++ if cb then [1] else [] := by
  cases cb with
  | false => rfl
  | true =>
      rw [if_pos rfl, if_pos rfl, if_pos rfl, ← hlength, List.set_append_right _ _ le_rfl,
        Nat.sub_self]
      rfl

/-- **`encodeOutput` in closed form**: it gives the bytes of the fields, and fails when one does not
fit. -/
theorem encodeOutput_ok_iff : encodeOutput value height hex cb = .ok bytes ↔
    ∃ f : Fields, bigInt value = .ok (f.value : Int) ∧ f.height = height.getD (-1) ∧
      TxidWritten hex f.txid ∧ f.coinbase = cb ∧ bytes = f.bytes := by
  obtain ⟨tail, htail⟩ : ∃ tail : List UInt8, tail = if cb then [0] else [] := ⟨_, rfl⟩
  have hbuf : alloc (if cb then 45 else 44) = alloc 8 ++ (alloc 4 ++ (alloc 32 ++ tail)) := by
    rw [htail]
    cases cb <;> rfl
  simp only [encodeOutput, hbuf, bind_eq_ok_iff, writeBigUInt64BE_ok_iff]
  constructor
  · rintro ⟨_, hvalue, _, ⟨v, rfl, hv, rfl⟩, _, hheight, _, hhash, hrun⟩
    obtain ⟨hge, hlt, rfl⟩ := (writeInt32BE_ok_iff (length_toBE 8 v)).mp hheight
    rw [← List.append_assoc, writeFullTxHash_ok_iff (by simp)] at hhash
    obtain ⟨txid, hwritten, rfl⟩ := hhash
    refine ⟨⟨v, hv, height.getD (-1), hge, hlt, txid, hwritten.length_eq, cb⟩, hvalue, rfl, hwritten,
      rfl, ?_⟩
    rw [← List.append_assoc, htail, set_flag (by simp [hwritten.length_eq]), Except.ok.injEq] at hrun
    rw [← hrun, List.append_assoc, List.append_assoc]
    rfl
  · rintro ⟨f, hvalue, hheight, hwritten, rfl, rfl⟩
    refine ⟨f.value, hvalue, _, ⟨f.value, rfl, f.value_lt, rfl⟩, f.valueBytes ++ (f.heightBytes ++
      (alloc 32 ++ tail)), ?_, (f.valueBytes ++ f.heightBytes) ++ (f.txid ++ tail), ?_, ?_⟩
    · rw [← hheight]
      exact (writeInt32BE_ok_iff f.length_valueBytes).mpr ⟨f.height_ge, f.height_lt, rfl⟩
    · rw [← List.append_assoc, writeFullTxHash_ok_iff (by simp)]
      exact ⟨f.txid, hwritten, rfl⟩
    · rw [← List.append_assoc, htail, set_flag (by simp [f.length_txid]), List.append_assoc,
        List.append_assoc]
      rfl

theorem encodeOutput_of_fields (f : Fields) (hvalue : bigInt value = .ok (f.value : Int))
    (hwritten : TxidWritten hex f.txid) :
    encodeOutput value (some f.height) hex f.coinbase = .ok f.bytes :=
  encodeOutput_ok_iff.mpr ⟨f, hvalue, rfl, hwritten, rfl, rfl⟩

/-! ### There and back -/

theorem bigInt_repr (v : Nat) : bigInt (.text (Nat.repr v)) = .ok (v : Int) := by
  have hdigits : (Nat.repr v).toList = Nat.toDigits 10 v := by simp [Nat.repr]
  have hall : (Nat.toDigits 10 v).all Char.isDigit = true :=
    List.all_eq_true.mpr fun c hmem => Nat.isDigit_of_mem_toDigits (by decide) (by decide) hmem
  rw [bigInt, hdigits, if_pos hall, Nat.ofDigitChars_ten_toDigits]

theorem toHex_alloc : toHex (alloc 32) = ZERO_HASH := by decide

theorem toHex_injective : Function.Injective toHex := by
  intro first second heq
  rw [← ofHex_toHex first, heq, ofHex_toHex]

/-- The text decoded for a txid field writes that field. -/
theorem Fields.decoded_written (f : Fields) : TxidWritten f.decoded.t f.txid := by
  rw [Fields.decoded]
  by_cases hzero : toHex f.txid = ZERO_HASH
  · have hfield : f.txid = alloc 32 := toHex_injective (hzero.trans toHex_alloc.symm)
    rw [if_pos hzero, hfield]
    exact .none
  · rw [if_neg hzero]
    exact .of_bytes f.length_txid

/-- **Encoding what was decoded gives the bytes back.** -/
theorem Fields.encode_decoded (f : Fields) :
    encodeOutput (.text f.decoded.v) (some f.decoded.h) f.decoded.t f.decoded.cb = .ok f.bytes :=
  encodeOutput_of_fields f (bigInt_repr f.value) f.decoded_written

/-! ### The bulk pipeline -/

/-- The `O` value on its way through the bulk pipeline: the flag always there. -/
def Fields.fixedBytes (f : Fields) : List UInt8 :=
  f.valueBytes ++ (f.heightBytes ++ (f.txid ++ [if f.coinbase then 1 else 0]))

/-- **The loader re-encodes the fixed-width value as the live path does.** -/
theorem Fields.transformOValue_fixedBytes (f : Fields) :
    transformOValue f.fixedBytes = .ok f.bytes := by
  have hsplit : f.fixedBytes =
      f.valueBytes ++ (f.heightBytes ++ (f.txid ++ [if f.coinbase then 1 else 0])) := rfl
  obtain ⟨hvalue, hheight, htxid, -⟩ := f.read hsplit
  have hcoinbase := f.coinbase_of_flag hsplit
  have hflag : decide ((if f.coinbase then (1 : UInt8) else 0) = 1) = f.coinbase := by
    cases f.coinbase <;> rfl
  rw [transformOValue, bind_of_ok hvalue, bind_of_ok hheight, htxid, hcoinbase, hflag]
  exact encodeOutput_of_fields f rfl (.of_bytes f.length_txid)

/-- A well-formed call of the outputs writer. -/
structure OutputsAppend.WellFormed (out : OutputsAppend) (f : Fields) : Prop where
  txid : out.txid = f.txid
  value : bigInt out.value = .ok (f.value : Int)
  height : out.height = f.height
  length_script : out.scriptPubKey.length = 32
  length_block : out.blockHash.length = 32
  coinbase : out.isCoinbase = f.coinbase

variable {out : OutputsAppend} {f : Fields}

/-- One field more of a slot whose first fields are written. -/
theorem writeAt_slot {before bytes slot : List UInt8} {offset width next : Nat}
    (hoffset : before.length = offset) (hwidth : bytes.length = width)
    (hnext : offset + width = next) (hroom : next ≤ slot.length) :
    writeAt (before ++ slot.drop offset) offset bytes = (before ++ bytes) ++ slot.drop next := by
  have hsplit : slot.drop offset = (slot.drop offset).take width ++ slot.drop next := by
    rw [← hnext, ← List.drop_drop, List.take_append_drop]
  have hlength : ((slot.drop offset).take width).length = bytes.length := by
    rw [List.length_take, List.length_drop]
    omega
  rw [hsplit, writeAt_field before _ _ bytes hoffset hlength, List.append_assoc]

/-- The record that the writer packs. -/
def packed (out : OutputsAppend) (f : Fields) : List UInt8 :=
  f.txid ++ toBE 4 (out.vout % 2 ^ 32).toNat ++ f.valueBytes ++ f.heightBytes ++ out.scriptPubKey ++
    out.blockHash ++ [if f.coinbase then 1 else 0]

theorem OutputsAppend.WellFormed.pack_eq (hwf : out.WellFormed f) {slot : List UInt8}
    (hslot : slot.length = 113) : out.pack slot = .ok (packed out f) := by
  have htxid := f.length_txid
  have htake : out.txid.take 32 = f.txid := by
    rw [hwf.txid, List.take_of_length_le (by omega)]
  have hscript := List.take_of_length_le (le_of_eq hwf.length_script)
  have hblock := List.take_of_length_le (le_of_eq hwf.length_block)
  obtain ⟨vout, hvout⟩ : ∃ vout, toBE 4 (out.vout % 2 ^ 32).toNat = vout := ⟨_, rfl⟩
  have hlength : vout.length = 4 := hvout ▸ length_toBE 4 _
  have hvalue : ∀ buf, writeBigUInt64BE buf f.value 36 = .ok (writeAt buf 36 f.valueBytes) := by
    intro buf
    have hlt := f.value_lt
    exact if_neg (by omega)
  have hheight : ∀ buf, writeInt32BE buf f.height 44 = .ok (writeAt buf 44 f.heightBytes) := by
    intro buf
    have hge := f.height_ge
    have hlt := f.height_lt
    exact if_neg (by omega)
  have hfirst : writeAt slot 0 f.txid = f.txid ++ slot.drop 32 :=
    writeAt_slot (show ([] : List UInt8).length = 0 from rfl) htxid rfl (by omega)
  rw [OutputsAppend.pack, htake, hscript, hblock, hvout, hwf.height, hwf.coinbase]
  simp only [hwf.value, hvalue, hheight, bind, Except.bind]
  rw [hfirst, writeAt_slot htxid hlength rfl (by omega),
    writeAt_slot (by simp [htxid, hlength]) f.length_valueBytes rfl (by omega),
    writeAt_slot (by simp [htxid, hlength]) f.length_heightBytes rfl (by omega),
    writeAt_slot (by simp [htxid, hlength]) hwf.length_script rfl (by omega),
    writeAt_slot (by simp [htxid, hlength, hwf.length_script]) hwf.length_block rfl (by omega)]
  have hlast : ∃ byte, slot.drop 112 = [byte] := List.length_eq_one_iff.mp (by simp [hslot])
  obtain ⟨byte, hbyte⟩ := hlast
  have hbefore : (f.txid ++ vout ++ f.valueBytes ++ f.heightBytes ++ out.scriptPubKey ++
      out.blockHash).length = 112 := by
    simp [htxid, hlength, hwf.length_script, hwf.length_block]
  rw [packed, hvout, hbyte, ← hbefore, List.set_append_right _ _ le_rfl, Nat.sub_self]
  rfl

theorem subarray_eq (before rest : List UInt8) {buf field : List UInt8} {offset width : Nat}
    (hbuf : buf = before ++ (field ++ rest)) (hoffset : before.length = offset)
    (hwidth : field.length = width) : subarray buf offset width = field :=
  hbuf ▸ subarray_append before field rest hoffset hwidth

/-- The pipeline's `O` value of a live output's record. -/
theorem OutputsAppend.WellFormed.oValue_eq (hwf : out.WellFormed f) :
    oValue (liveOutputRecord (packed out f)) = f.fixedBytes := by
  have htxid := f.length_txid
  obtain ⟨vout, hvout⟩ : ∃ vout, toBE 4 (out.vout % 2 ^ 32).toNat = vout := ⟨_, rfl⟩
  have hlength : vout.length = 4 := hvout ▸ length_toBE 4 _
  obtain ⟨flag, hflag⟩ : ∃ flag : UInt8, flag = if f.coinbase then 1 else 0 := ⟨_, rfl⟩
  have hpacked : packed out f = f.txid ++ (vout ++ (f.valueBytes ++ (f.heightBytes ++
      (out.scriptPubKey ++ (out.blockHash ++ [flag]))))) := by
    simp only [packed, hvout, ← hflag, List.append_assoc]
  have hcoinbase : (packed out f)[112]? = some flag := by
    have hsplit : packed out f = (f.txid ++ vout ++ f.valueBytes ++ f.heightBytes ++
        out.scriptPubKey ++ out.blockHash) ++ [flag] := by
      rw [packed, hvout, hflag]
    rw [hsplit, List.getElem?_append_right (by
      simp [htxid, hlength, hwf.length_script, hwf.length_block])]
    simp [htxid, hlength, hwf.length_script, hwf.length_block]
  have hone : (if (packed out f)[112]? = some 1 then (1 : UInt8) else 0) = flag := by
    rw [hcoinbase, hflag]
    cases f.coinbase <;> rfl
  have hscript : subarray (packed out f) 48 32 = out.scriptPubKey :=
    subarray_eq (f.txid ++ vout ++ f.valueBytes ++ f.heightBytes) (out.blockHash ++ [flag])
      (by simp only [hpacked, List.append_assoc]) (by simp [htxid, hlength]) hwf.length_script
  have hfirst : subarray (packed out f) 0 32 = f.txid := subarray_eq [] _ hpacked rfl htxid
  have hindex : subarray (packed out f) 32 4 = vout := subarray_eq f.txid _ hpacked htxid hlength
  have hvalue : subarray (packed out f) 36 8 = f.valueBytes :=
    subarray_eq (f.txid ++ vout) (f.heightBytes ++ (out.scriptPubKey ++ (out.blockHash ++ [flag])))
      (by simp only [hpacked, List.append_assoc]) (by simp [htxid, hlength]) f.length_valueBytes
  have hheight : subarray (packed out f) 44 4 = f.heightBytes :=
    subarray_eq (f.txid ++ vout ++ f.valueBytes) (out.scriptPubKey ++ (out.blockHash ++ [flag]))
      (by simp only [hpacked, List.append_assoc]) (by simp [htxid, hlength]) f.length_heightBytes
  rw [oValue, liveOutputRecord, hone, hscript, hfirst, hindex, hvalue, hheight]
  apply subarray_eq (P_OUTPUT :: (out.scriptPubKey ++ f.txid ++ vout)) []
  · simp only [Fields.fixedBytes, ← hflag, List.append_assoc, List.cons_append, List.append_nil]
  · simp [htxid, hlength, hwf.length_script]
  · simp [Fields.fixedBytes, htxid]

/-- The buffers of a call hold a txid, a script hash and a block hash. -/
structure OutputsAppend.Sized (out : OutputsAppend) : Prop where
  length_txid : out.txid.length = 32
  length_script : out.scriptPubKey.length = 32
  length_block : out.blockHash.length = 32

/-- A call that packs a record has a value and a height that fit. -/
theorem OutputsAppend.Sized.wellFormed (hsized : out.Sized) {slot record : List UInt8}
    (hrun : out.pack slot = .ok record) : ∃ f, out.WellFormed f := by
  simp only [OutputsAppend.pack, bind_eq_ok_iff] at hrun
  obtain ⟨n, hvalue, _, hwrite, _, hwrite', -⟩ := hrun
  rw [writeBigUInt64BE, ite_eq_iff'] at hwrite
  rw [writeInt32BE, ite_eq_iff'] at hwrite'
  have hrange : ¬(n < 0 ∨ 2 ^ 64 ≤ n) := fun hout => nomatch hwrite.1 hout
  have hrange' : ¬(out.height < -2 ^ 31 ∨ 2 ^ 31 ≤ out.height) := fun hout => nomatch hwrite'.1 hout
  have hcast : ((n.toNat : Nat) : Int) = n := Int.toNat_of_nonneg (by omega)
  exact ⟨⟨n.toNat, by omega, out.height, by omega, by omega, out.txid, hsized.length_txid,
    out.isCoinbase⟩, rfl, hcast.symm ▸ hvalue, rfl, hsized.length_script, hsized.length_block, rfl⟩

/-- **The `O` value codec.** What is encoded decodes to its fields, what was decoded encodes to its
bytes, and the loader's value of a bulk record is the one the live path encodes. -/
theorem output_value_codec :
    (∀ (value : BigIntSource) (v : Nat) (height : Option Int) (txid : List Char) (cb : Bool),
      bigInt value = .ok (v : Int) → v < 2 ^ 64 → -2 ^ 31 ≤ height.getD (-1) →
      height.getD (-1) < 2 ^ 31 → IsHashText txid → txid ≠ ZERO_HASH →
      ∃ bytes, encodeOutput value height (some txid) cb = .ok bytes ∧
        bytes.length = (if cb then 45 else 44) ∧
        decodeOutput bytes = .ok ⟨Nat.repr v, height.getD (-1), some txid, cb⟩) ∧
    (∀ (value : BigIntSource) (height : Option Int) (hex : Option (List Char)) (cb : Bool)
      (bytes : List UInt8), encodeOutput value height hex cb = .ok bytes →
      ∃ d, decodeOutput bytes = .ok d ∧
        encodeOutput (.text d.v) (some d.h) d.t d.cb = .ok bytes) ∧
    ∀ (out : OutputsAppend) (slot record : List UInt8), out.Sized → slot.length = 113 →
      out.pack slot = .ok record →
      transformOValue (oValue (liveOutputRecord record)) =
        encodeOutput out.value (some out.height) (some (toHex out.txid)) out.isCoinbase := by
  refine ⟨?_, ?_, ?_⟩
  · intro value v height txid cb hvalue hv hge hlt htext hzero
    obtain ⟨hback, hlength⟩ := toHex_ofHex (n := 32) htext.1 htext.2
    obtain ⟨f, hf⟩ : ∃ f : Fields, f =
        ⟨v, hv, height.getD (-1), hge, hlt, ofHex txid, hlength, cb⟩ := ⟨_, rfl⟩
    have htxid : toHex f.txid = txid := by rw [hf, hback]
    have hwritten : TxidWritten (some txid) f.txid := htxid ▸ .of_bytes f.length_txid
    refine ⟨f.bytes, encodeOutput_ok_iff.mpr ⟨f, ?_, ?_, hwritten, ?_, rfl⟩, ?_, ?_⟩
    · rw [hvalue, hf]
    · rw [hf]
    · rw [hf]
    · rw [f.length_bytes, hf]
    · rw [f.decodeOutput_bytes, Fields.decoded, htxid, if_neg hzero, hf]
  · intro value height hex cb bytes hrun
    obtain ⟨f, -, -, -, -, rfl⟩ := encodeOutput_ok_iff.mp hrun
    exact ⟨f.decoded, f.decodeOutput_bytes, f.encode_decoded⟩
  · intro out slot record hsized hslot hrun
    obtain ⟨f, hwf⟩ := hsized.wellFormed hrun
    rw [hwf.pack_eq hslot, Except.ok.injEq] at hrun
    rw [← hrun, hwf.oValue_eq, f.transformOValue_fixedBytes, hwf.height, hwf.coinbase, hwf.txid]
    exact (encodeOutput_of_fields f hwf.value (.of_bytes f.length_txid)).symm

/-- A coinbase output at height 5. -/
def coinbaseAppend : OutputsAppend :=
  { txid := toBE 32 1
    vout := 0
    value := .text "50"
    height := 5
    scriptPubKey := toBE 32 7
    blockHash := toBE 32 2
    isCoinbase := true }

/-- Its value is encoded and decoded, and comes through the loader the same. -/
theorem output_value_codec_coinbase : ∃ bytes record : List UInt8,
    encodeOutput (.text "50") (some 5) (some (hashText 1)) true = .ok bytes ∧
    bytes.length = 45 ∧ decodeOutput bytes = .ok ⟨Nat.repr 50, 5, some (hashText 1), true⟩ ∧
    coinbaseAppend.pack (alloc 113) = .ok record ∧
    transformOValue (oValue (liveOutputRecord record)) = .ok bytes := by
  obtain ⟨hround, -, hloader⟩ := output_value_codec
  obtain ⟨bytes, hencode, hlength, hdecode⟩ := hround (.text "50") 50 (some 5) (hashText 1) true
    (by decide) (by decide) (by decide) (by decide) (isHashText_hashText 1) (by decide)
  have hsized : coinbaseAppend.Sized := ⟨length_toBE 32 1, length_toBE 32 7, length_toBE 32 2⟩
  have hpacks : (coinbaseAppend.pack (alloc 113)).toOption.isSome := by decide
  obtain ⟨record, hpack⟩ : ∃ record, coinbaseAppend.pack (alloc 113) = .ok record := by
    cases hrun : coinbaseAppend.pack (alloc 113) with
    | ok record => exact ⟨record, rfl⟩
    | error error => rw [hrun] at hpacks; cases hpacks
  have hloaded := hloader coinbaseAppend _ record hsized (length_alloc 113) hpack
  have htxid : toHex coinbaseAppend.txid = hashText 1 := toHex_toBE 32 1
  rw [htxid] at hloaded
  exact ⟨bytes, record, hencode, hlength, hdecode, hpack, hloaded.trans hencode⟩

end UtxoTracker.ValueCodec

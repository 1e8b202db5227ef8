import UtxoTracker.Bulk.ConcatReuse
import UtxoTracker.Proof.DatFiles
import UtxoTracker.Proof.Xdmp
/-!
# What a closed writer leaves

The header of a parse stream in closed form, and that a closed writer's file is that header and the
records.
-/

namespace UtxoTracker.DatFiles

open ByteString Fallible RecordBuffer ValueCodec
open Xdmp (ChainName NetworkName CHAIN_CODES NETWORK_CODES asciiText readUInt32LE subarray_of_at
  readUInt32LE_of_at)

/-! ### The header -/

/-- What the header of a stream says. -/
structure StreamHeader where
  magic : List UInt8
  chain : ChainName
  netName : NetworkName
  firstHeight : Nat
  lastHeight : Nat
  recordCount : Nat
  recordSize : Nat

namespace StreamHeader

variable (h : StreamHeader)

structure Fits : Prop where
  length_magic : h.magic.length = 8
  first_lt : h.firstHeight < 2 ^ 32
  last_lt : h.lastHeight < 2 ^ 32
  count_lt : h.recordCount < 2 ^ 64
  size_lt : h.recordSize < 2 ^ 32

def identity : List UInt8 :=
  h.magic ++ [CHAIN_CODES h.chain] ++ [NETWORK_CODES h.netName] ++ toLE 2 FILE_VERSION

/-- The bytes up to the last height. -/
def front : List UInt8 := h.identity ++ toLE 4 h.firstHeight

def bytes : List UInt8 :=
  h.front ++ toLE 4 h.lastHeight ++ toLE 8 h.recordCount ++ toLE 4 h.recordSize ++
    (alloc HEADER_SIZE).drop 32

variable {h}

theorem length_front (hmagic : h.magic.length = 8) : h.front.length = 16 := by
  simp [front, identity, hmagic]

theorem Fits.length_bytes (hfits : h.Fits) : h.bytes.length = 64 := by
  simp [bytes, length_front hfits.length_magic, HEADER_SIZE]

theorem identity_start (hmagic : h.magic.length = 8) {slot : List UInt8}
    (hroom : slot.length = 64) :
    writeAt (writeAt (writeAt (writeAt slot 0 h.magic) 8 [CHAIN_CODES h.chain]) 9
      [NETWORK_CODES h.netName]) 10 (toLE 2 FILE_VERSION) = h.identity ++ slot.drop 12 := by
  have hfirst : writeAt slot 0 h.magic = h.magic ++ slot.drop 8 :=
    writeAt_slot (show ([] : List UInt8).length = 0 from rfl) hmagic rfl (by omega)
  rw [hfirst, writeAt_slot hmagic List.length_singleton rfl (by omega),
    writeAt_slot (by simp [hmagic]) List.length_singleton rfl (by omega),
    writeAt_slot (by simp [hmagic]) (length_toLE 2 _) rfl (by omega)]
  rfl

end StreamHeader

theorem writeUInt32LE_ok_iff {buf buf' : List UInt8} {value offset : Nat} :
    writeUInt32LE buf value offset = .ok buf' ↔
      value < 2 ^ 32 ∧ buf' = writeAt buf offset (toLE 4 value) := by
  rw [writeUInt32LE, ite_error_eq_ok_iff, not_le, Except.ok.injEq, eq_comm]

/-- **The header that is written** has a record count of 0. -/
theorem writeHeader_ok_iff {h : StreamHeader} (hcount : h.recordCount = 0) {header : List UInt8} :
    writeHeader h.magic h.chain h.netName h.firstHeight h.lastHeight h.recordSize = .ok header ↔
      h.Fits ∧ header = h.bytes := by
  unfold writeHeader
  by_cases hmagic : h.magic.length = 8
  · rw [if_neg (not_not.mpr hmagic)]
    obtain ⟨slot, hslot⟩ : ∃ slot, alloc HEADER_SIZE = slot := ⟨_, rfl⟩
    have hroom : slot.length = 64 := hslot ▸ length_alloc 64
    have hidentity : h.identity.length = 12 := by simp [StreamHeader.identity, hmagic]
    have hfront : h.front.length = 16 := StreamHeader.length_front hmagic
    have hfirst : writeAt (h.identity ++ slot.drop 12) 12 (toLE 4 h.firstHeight) =
        h.front ++ slot.drop 16 := writeAt_slot hidentity (length_toLE 4 _) rfl (by omega)
    have hlast : writeAt (h.front ++ slot.drop 16) 16 (toLE 4 h.lastHeight) =
        (h.front ++ toLE 4 h.lastHeight) ++ slot.drop 20 :=
      writeAt_slot hfront (length_toLE 4 _) rfl (by omega)
    have hzero : slot.drop 20 = toLE 8 h.recordCount ++ slot.drop 28 := by
      rw [← hslot, hcount]
      decide
    have hsize : writeAt ((h.front ++ toLE 4 h.lastHeight) ++ slot.drop 20) 28
        (toLE 4 h.recordSize) = h.bytes := by
      rw [hzero, ← List.append_assoc,
        writeAt_slot (by simp [hfront]) (length_toLE 4 _) rfl (by omega), StreamHeader.bytes, hslot]
    dsimp only
    rw [hslot, StreamHeader.identity_start hmagic hroom]
    simp only [bind_eq_ok_iff, writeUInt32LE_ok_iff]
    constructor
    · rintro ⟨_, ⟨hfits, rfl⟩, _, ⟨hfits', rfl⟩, hfits'', rfl⟩
      rw [hfirst, hlast, hsize]
      exact ⟨⟨hmagic, hfits, hfits', hcount ▸ Nat.two_pow_pos 64, hfits''⟩, rfl⟩
    · rintro ⟨hfits, rfl⟩
      refine ⟨_, ⟨hfits.first_lt, rfl⟩, _, ⟨hfits.last_lt, rfl⟩, hfits.size_lt, ?_⟩
      rw [hfirst, hlast, hsize]
  · rw [if_pos hmagic]
    apply iff_of_false
    · intro hok
      cases hok
    · rintro ⟨hfits, -⟩
      exact hmagic hfits.length_magic

/-! ### What is read of it -/

namespace StreamHeader

variable {h : StreamHeader} {body : List UInt8}

theorem bytes_eq : h.bytes = h.magic ++ ([CHAIN_CODES h.chain] ++ ([NETWORK_CODES h.netName] ++
    (toLE 2 FILE_VERSION ++ (toLE 4 h.firstHeight ++ (toLE 4 h.lastHeight ++
      (toLE 8 h.recordCount ++ (toLE 4 h.recordSize ++ (alloc HEADER_SIZE).drop 32))))))) := by
  simp only [bytes, front, identity, List.append_assoc]

theorem Fits.take_header (hfits : h.Fits) : (h.bytes ++ body).take HEADER_SIZE = h.bytes :=
  List.take_left' hfits.length_bytes

theorem Fits.drop_header (hfits : h.Fits) : (h.bytes ++ body).drop HEADER_SIZE = body :=
  List.drop_left' hfits.length_bytes

/-- **The fields of a header are read back.** -/
theorem Fits.ofHeader_bytes (hfits : h.Fits) (fileSize : Nat) :
    DatHeader.ofHeader h.bytes fileSize =
      { magic := asciiText h.magic
        chain := CHAIN_CODES h.chain
        net := NETWORK_CODES h.netName
        version := FILE_VERSION
        firstHeight := h.firstHeight
        lastHeight := h.lastHeight
        recordCount := h.recordCount
        recordSize := h.recordSize
        fileSize } := by
  have hmagic : At h.bytes 0 _ := ⟨[], bytes_eq, rfl⟩
  have hchain := hmagic.skip_of_length hfits.length_magic
  have hnet := hchain.skip_of_length List.length_singleton
  have hversion := hnet.skip_of_length List.length_singleton
  have hfirst := hversion.skip_of_length (length_toLE 2 _)
  have hlast := hfirst.skip_of_length (length_toLE 4 _)
  have hcount := hlast.skip_of_length (length_toLE 4 _)
  have hsize := hcount.skip_of_length (length_toLE 8 _)
  have hnumber : ofLE (subarray h.bytes 10 2) = FILE_VERSION := by
    rw [subarray_of_at hversion (length_toLE 2 _), ofLE_toLE]
    rfl
  have hcount' : recordCountOf h.bytes = h.recordCount := by
    rw [recordCountOf, subarray_of_at hcount (length_toLE 8 _), ofLE_toLE]
    exact Nat.mod_eq_of_lt hfits.count_lt
  rw [DatHeader.ofHeader, hnumber, hcount', firstHeightOf, lastHeightOf,
    subarray_of_at hmagic hfits.length_magic, readUInt32LE_of_at hfirst hfits.first_lt,
    readUInt32LE_of_at hlast hfits.last_lt, readUInt32LE_of_at hsize hfits.size_lt,
    List.getD_eq_getElem?_getD, List.getD_eq_getElem?_getD, hchain.getElem?_eq, hnet.getElem?_eq]
  rfl

/-- The header with another last height and count. -/
def patch (h : StreamHeader) (lastHeight recordCount : Nat) : StreamHeader :=
  { h with lastHeight, recordCount }

theorem Fits.patch (hfits : h.Fits) {lastHeight recordCount : Nat} (hlast : lastHeight < 2 ^ 32)
    (hcount : recordCount < 2 ^ 64) : (h.patch lastHeight recordCount).Fits :=
  { hfits with last_lt := hlast, count_lt := hcount }

/-- Putting the count in. -/
theorem backfill (hmagic : h.magic.length = 8) (count : Nat) (body : List UInt8) :
    writeAt (h.bytes ++ body) 20 (toLE 8 count) = (h.patch h.lastHeight count).bytes ++ body := by
  have hsplit (n : Nat) : (h.patch h.lastHeight n).bytes ++ body =
      (h.front ++ toLE 4 h.lastHeight) ++
        (toLE 8 n ++ (toLE 4 h.recordSize ++ ((alloc HEADER_SIZE).drop 32 ++ body))) := by
    simp only [bytes, StreamHeader.patch, front, identity, List.append_assoc]
  have hbytes : h.bytes = (h.patch h.lastHeight h.recordCount).bytes := rfl
  have hlength : (h.front ++ toLE 4 h.lastHeight).length = 20 := by simp [length_front hmagic]
  rw [hbytes, hsplit, hsplit, writeAt_field _ _ _ _ hlength]
  rw [length_toLE, length_toLE]

theorem patched_bytes (hmagic : h.magic.length = 8) (lastHeight recordCount : Nat) :
    patched h.bytes lastHeight recordCount = (h.patch lastHeight recordCount).bytes := by
  have hsplit : h.bytes = h.front ++ (toLE 4 h.lastHeight ++
      (toLE 8 h.recordCount ++ (toLE 4 h.recordSize ++ (alloc HEADER_SIZE).drop 32))) := by
    simp only [bytes, List.append_assoc]
  have hlast : writeAt h.bytes 16 (toLE 4 lastHeight) =
      (h.patch lastHeight h.recordCount).bytes := by
    rw [hsplit, writeAt_field _ _ _ _ (length_front hmagic)]
    · simp only [bytes, StreamHeader.patch, front, identity, List.append_assoc]
    · rw [length_toLE, length_toLE]
  have hcount := backfill (show (h.patch lastHeight h.recordCount).magic.length = 8 from hmagic)
    recordCount []
  rw [patched, hlast, ← List.append_nil (h.patch lastHeight h.recordCount).bytes, hcount,
    List.append_nil]
  rfl

end StreamHeader

/-! ### Closing -/

variable {h : StreamHeader} {body file : List UInt8}

/-- A file with its header and this body. -/
structure StreamFile (h : StreamHeader) (body file : List UInt8) : Prop where
  fits : h.Fits
  eq : file = h.bytes ++ body

theorem backfillRecordCount_ok (hfits : h.Fits) {count : Nat}
    (hrun : backfillRecordCount (h.bytes ++ body) count = .ok file) :
    StreamFile (h.patch h.lastHeight count) body file := by
  unfold backfillRecordCount at hrun
  split_ifs at hrun with hlarge
  rw [StreamHeader.backfill hfits.length_magic, Except.ok.injEq] at hrun
  exact ⟨hfits.patch hfits.last_lt (by omega), hrun.symm⟩

/-! ### Fixed records -/

/-- The writer's file and batch hold the header and the records so far. -/
structure FixedRecordWriter.Holding (w : FixedRecordWriter) (h : StreamHeader) (body : List UInt8) :
    Prop where
  room : w.out.HasRoom
  size : w.out.recordSize = h.recordSize
  contents : w.out.contents = h.bytes ++ body
  length_body : body.length = w.count * h.recordSize

namespace FixedRecordWriter

variable {w w' : FixedRecordWriter}

theorem construct_ok (hcount : h.recordCount = 0) (hsize : 0 < h.recordSize)
    (hrun : construct h.magic h.chain h.netName h.firstHeight h.lastHeight h.recordSize = .ok w) :
    h.Fits ∧ w.Holding h [] ∧ w.count = 0 := by
  unfold construct at hrun
  rw [bind_eq_ok_iff] at hrun
  obtain ⟨header, hheader, hw⟩ := hrun
  obtain ⟨hfits, rfl⟩ := (writeHeader_ok_iff hcount).mp hheader
  have hempty : (RecordWriter.ofSize FLUSH_BATCH_BYTES h.recordSize : RecordWriter UInt8).HasRoom :=
    RecordWriter.hasRoom_ofSize _ hsize
  obtain ⟨hroom, hcontents, hrecord⟩ := hempty.writeRaw h.bytes
  rw [RecordWriter.contents_ofSize, List.nil_append] at hcontents
  cases hw
  refine ⟨hfits, ⟨hroom, hrecord, ?_, ?_⟩, rfl⟩
  · rw [hcontents, List.append_nil]
  · rw [List.length_nil, Nat.zero_mul]

theorem Holding.length_slot (hholding : w.Holding h body) : w.slot.length = h.recordSize := by
  have hfits : (w.out.bufLen + 1) * w.out.recordSize ≤ w.out.buf.length := by
    calc (w.out.bufLen + 1) * w.out.recordSize
        ≤ w.out.buf.length / w.out.recordSize * w.out.recordSize :=
          Nat.mul_le_mul_right _ hholding.room.room
      _ ≤ w.out.buf.length := Nat.div_mul_le_self _ _
  rw [Nat.succ_mul] at hfits
  rw [slot, subarray, List.length_take, List.length_drop, ← hholding.size]
  omega

theorem Holding.advance (hholding : w.Holding h body) {record : List UInt8}
    (hlength : record.length = h.recordSize) : (w.advance record).Holding h (body ++ record) := by
  obtain ⟨hroom, hcontents, hrecord⟩ :=
    hholding.room.writeRecord (hlength.trans hholding.size.symm)
  refine ⟨hroom, hrecord.trans hholding.size, ?_, ?_⟩
  · have hadvance : (w.advance record).out = w.out.writeRecord record := rfl
    rw [hadvance, hcontents, hholding.contents, List.append_assoc]
  · have hcount : (w.advance record).count = w.count + 1 := rfl
    rw [List.length_append, hholding.length_body, hlength, hcount, Nat.succ_mul]

theorem Holding.close_ok (hholding : w.Holding h body) (hfits : h.Fits)
    (hrun : w.close = .ok file) : StreamFile (h.patch h.lastHeight w.count) body file := by
  rw [close, RecordWriter.written_flush, hholding.contents] at hrun
  exact backfillRecordCount_ok hfits hrun

end FixedRecordWriter

/-- Packing a call fills the slot it is given. -/
def FillsSlot {ρ : Type} (recordSize : Nat)
    (pack : ρ → List UInt8 → Except CodecError (List UInt8)) : Prop :=
  ∀ call slot record, slot.length = recordSize → pack call slot = .ok record →
    record.length = recordSize

variable {ρ : Type} {pack : ρ → List UInt8 → Except CodecError (List UInt8)} {calls : List ρ}

theorem appendAll_ok {w w' : FixedRecordWriter} (hpack : FillsSlot h.recordSize pack)
    (hholding : w.Holding h body) (hrun : appendAll pack w calls = .ok w') :
    ∃ records, w'.Holding h records ∧ w'.count = w.count + calls.length := by
  induction calls generalizing w body with
  | nil =>
      cases hrun
      exact ⟨body, hholding, rfl⟩
  | cons call rest ih =>
      rw [appendAll, bind_eq_ok_iff] at hrun
      obtain ⟨record, hrecord, hrest⟩ := hrun
      have hlength := hpack call w.slot record hholding.length_slot hrecord
      obtain ⟨records, hholding', hcount⟩ := ih (hholding.advance hlength) hrest
      refine ⟨records, hholding', ?_⟩
      rw [hcount, List.length_cons]
      change w.count + 1 + rest.length = _
      omega

/-- **A closed fixed-record file** is its header with the number of records, and that many
records. -/
theorem fixedRecordFile_ok (hpack : FillsSlot h.recordSize pack) (hsize : 0 < h.recordSize)
    (hcount : h.recordCount = calls.length)
    (hrun : fixedRecordFile h.magic h.recordSize pack h.chain h.netName h.firstHeight h.lastHeight
      calls = .ok file) :
    ∃ body, StreamFile h body file ∧ body.length = h.recordCount * h.recordSize := by
  simp only [fixedRecordFile, bind_eq_ok_iff] at hrun
  obtain ⟨w, hconstruct, w', happend, hclose⟩ := hrun
  obtain ⟨hfits, hholding, hzero⟩ := FixedRecordWriter.construct_ok
    (show (h.patch h.lastHeight 0).recordCount = 0 from rfl) hsize hconstruct
  have hpack' : FillsSlot (h.patch h.lastHeight 0).recordSize pack := hpack
  obtain ⟨records, hholding', hcount'⟩ := appendAll_ok hpack' hholding happend
  have hcalls : w'.count = h.recordCount := by omega
  have hlength : records.length = w'.count * h.recordSize := hholding'.length_body
  have hstream := hholding'.close_ok hfits hclose
  rw [hcalls] at hstream hlength
  exact ⟨records, hstream, hlength⟩

theorem exists_backfillRecordCount {count : Nat} (hcount : count < 2 ^ 64) (file : List UInt8) :
    ∃ file', backfillRecordCount file count = .ok file' := by
  unfold backfillRecordCount
  rw [if_neg (by omega)]
  exact ⟨_, rfl⟩

theorem exists_appendAll {w : FixedRecordWriter} (hpack : FillsSlot h.recordSize pack)
    (hpacks : ∀ call ∈ calls, ∀ slot, slot.length = h.recordSize →
      ∃ record, pack call slot = .ok record)
    (hholding : w.Holding h body) : ∃ w', appendAll pack w calls = .ok w' := by
  induction calls generalizing w body with
  | nil => exact ⟨w, rfl⟩
  | cons call rest ih =>
      obtain ⟨hcall, hrest⟩ := List.forall_mem_cons.mp hpacks
      obtain ⟨record, hrecord⟩ := hcall w.slot hholding.length_slot
      have hlength := hpack call w.slot record hholding.length_slot hrecord
      rw [appendAll, hrecord]
      exact ih hrest (hholding.advance hlength)

/-- A writer whose header fits and whose calls can be packed is closed. -/
theorem exists_fixedRecordFile (hpack : FillsSlot h.recordSize pack) (hsize : 0 < h.recordSize)
    (hfits : h.Fits) (hcount : h.recordCount = calls.length)
    (hpacks : ∀ call ∈ calls, ∀ slot, slot.length = h.recordSize →
      ∃ record, pack call slot = .ok record) :
    ∃ file, fixedRecordFile h.magic h.recordSize pack h.chain h.netName h.firstHeight h.lastHeight
      calls = .ok file := by
  have hempty : (h.patch h.lastHeight 0).recordCount = 0 := rfl
  have hheader := (writeHeader_ok_iff hempty).mpr ⟨hfits.patch hfits.last_lt (by decide), rfl⟩
  have hconstruct := bind_of_ok hheader fun header => Except.ok (FixedRecordWriter.mk
    ((RecordWriter.ofSize FLUSH_BATCH_BYTES h.recordSize).writeRaw header) 0)
  obtain ⟨-, hholding, hzero⟩ := FixedRecordWriter.construct_ok hempty hsize hconstruct
  have hpack' : FillsSlot (h.patch h.lastHeight 0).recordSize pack := hpack
  obtain ⟨w', happend⟩ := exists_appendAll hpack' hpacks hholding
  obtain ⟨-, -, hcalls⟩ := appendAll_ok hpack' hholding happend
  have hlt := hfits.count_lt
  obtain ⟨file, hclose⟩ := exists_backfillRecordCount (show w'.count < 2 ^ 64 by omega)
    w'.out.flush.written
  refine ⟨file, ?_⟩
  simp only [fixedRecordFile, bind_eq_ok_iff]
  exact ⟨_, hconstruct, w', happend, hclose⟩

theorem outputs_fillsSlot : FillsSlot OUTPUTS_RECORD_SIZE OutputsAppend.pack := by
  intro call slot record hslot hpack
  have hsize : OUTPUTS_RECORD_SIZE = 113 := rfl
  simp only [OutputsAppend.pack, bind_eq_ok_iff] at hpack
  obtain ⟨n, -, b, hvalue, b', hheight, hrecord⟩ := hpack
  have htxid := length_writeAt hslot (Nat.zero_le _) (call.txid.take 32)
  have hvout := length_writeAt htxid (by omega : 32 ≤ _) (toBE 4 (call.vout % 2 ^ 32).toNat)
  have hb : b.length = OUTPUTS_RECORD_SIZE := by
    unfold writeBigUInt64BE at hvalue
    split_ifs at hvalue
    rw [← Except.ok.inj hvalue]
    exact length_writeAt hvout (by omega) _
  have hb' : b'.length = OUTPUTS_RECORD_SIZE := by
    unfold writeInt32BE at hheight
    split_ifs at hheight
    rw [← Except.ok.inj hheight]
    exact length_writeAt hb (by omega) _
  have hscript := length_writeAt hb' (by omega : 48 ≤ _) (call.scriptPubKey.take 32)
  have hblock := length_writeAt hscript (by omega : 80 ≤ _) (call.blockHash.take 32)
  rw [← Except.ok.inj hrecord, List.length_set, hblock]

theorem spends_fillsSlot : FillsSlot SPENDS_RECORD_SIZE SpendsAppend.pack := by
  intro call slot record hslot hpack
  have hsize : SPENDS_RECORD_SIZE = 68 := rfl
  have htxid := length_writeAt hslot (Nat.zero_le _) (call.prevTxid.take 32)
  have hvout := length_writeAt htxid (by omega : 32 ≤ _) (toBE 4 (call.prevVout % 2 ^ 32).toNat)
  rw [← Except.ok.inj hpack]
  exact length_writeAt hvout (by omega) _

/-! ### Blocks -/

namespace MetaWriter

variable {w : MetaWriter}

/-- What the file holds once the buffer is flushed. -/
def contents (w : MetaWriter) : List UInt8 := w.written ++ w.pending

theorem written_flush : w.flush.written = w.contents := by
  unfold flush contents
  split_ifs with hempty
  · rw [List.eq_nil_of_length_eq_zero hempty, List.append_nil]
  · rfl

theorem contents_flush : w.flush.contents = w.contents := by
  unfold flush
  split_ifs
  · rfl
  · exact List.append_nil _

theorem contents_ensure (needed : Nat) :
    (w.ensure needed).contents = w.contents ∧ (w.ensure needed).count = w.count := by
  have hcount : w.flush.count = w.count := by
    unfold flush
    split_ifs
    · rfl
    · rfl
  unfold ensure
  split_ifs
  · exact ⟨rfl, rfl⟩
  · exact ⟨contents_flush, hcount⟩
  · exact ⟨contents_flush, hcount⟩

/-- **The writer keeps every block it is given, in order.** -/
theorem writeBlock_spec (block : MetaBlock) :
    (w.writeBlock block).contents = w.contents ++ block.record ∧
      (w.writeBlock block).count = w.count + 1 := by
  obtain ⟨hcontents, hcount⟩ := @contents_ensure w (76 + META_TXID_SIZE * block.txidList.length)
  constructor
  · calc (w.writeBlock block).contents
        = (w.ensure (76 + META_TXID_SIZE * block.txidList.length)).contents ++ block.record :=
          (List.append_assoc _ _ _).symm
      _ = w.contents ++ block.record := by rw [hcontents]
  · exact congrArg (· + 1) hcount

theorem writeBlocks_spec (w : MetaWriter) (blocks : List MetaBlock) :
    (blocks.foldl writeBlock w).contents = w.contents ++ blocks.flatMap MetaBlock.record ∧
      (blocks.foldl writeBlock w).count = w.count + blocks.length := by
  induction blocks generalizing w with
  | nil => exact ⟨(List.append_nil _).symm, rfl⟩
  | cons block rest ih =>
      obtain ⟨hcontents, hcount⟩ := ih (w.writeBlock block)
      obtain ⟨hblock, hone⟩ := writeBlock_spec (w := w) block
      constructor
      · rw [List.foldl_cons, hcontents, hblock, List.flatMap_cons, List.append_assoc]
      · rw [List.foldl_cons, hcount, hone, List.length_cons]
        omega

end MetaWriter

/-- **A closed block file** is its header with the number of blocks, and their records. -/
theorem metaFile_ok {blocks : List MetaBlock} (hmagic : h.magic = MAGIC_META)
    (hsize : h.recordSize = 0) (hcount : h.recordCount = blocks.length)
    (hrun : metaFile h.chain h.netName h.firstHeight h.lastHeight blocks = .ok file) :
    StreamFile h (blocks.flatMap MetaBlock.record) file := by
  simp only [metaFile, MetaWriter.construct, bind_eq_ok_iff] at hrun
  obtain ⟨w, ⟨header, hheader, hw⟩, hclose⟩ := hrun
  have hempty : (h.patch h.lastHeight 0).recordCount = 0 := rfl
  have hheader' : writeHeader h.magic h.chain h.netName h.firstHeight h.lastHeight h.recordSize =
      .ok header := by rw [hmagic, hsize, hheader]
  obtain ⟨hfits, rfl⟩ := (writeHeader_ok_iff hempty).mp hheader'
  cases hw
  obtain ⟨hcontents, hblocks⟩ := MetaWriter.writeBlocks_spec
    ⟨(h.patch h.lastHeight 0).bytes, [], FLUSH_BATCH_BYTES, 0⟩ blocks
  rw [MetaWriter.close, MetaWriter.written_flush, hcontents, hblocks, Nat.zero_add, ← hcount] at hclose
  have hstart : (⟨(h.patch h.lastHeight 0).bytes, [], FLUSH_BATCH_BYTES, 0⟩ : MetaWriter).contents =
      (h.patch h.lastHeight 0).bytes := List.append_nil _
  rw [hstart] at hclose
  exact backfillRecordCount_ok hfits hclose

theorem exists_metaFile {blocks : List MetaBlock} (hmagic : h.magic = MAGIC_META)
    (hsize : h.recordSize = 0) (hfits : h.Fits) (hcount : h.recordCount = blocks.length) :
    ∃ file, metaFile h.chain h.netName h.firstHeight h.lastHeight blocks = .ok file := by
  have hempty : (h.patch h.lastHeight 0).recordCount = 0 := rfl
  have hheader : writeHeader h.magic h.chain h.netName h.firstHeight h.lastHeight h.recordSize =
      .ok (h.patch h.lastHeight 0).bytes :=
    (writeHeader_ok_iff hempty).mpr ⟨hfits.patch hfits.last_lt (by decide), rfl⟩
  rw [hmagic, hsize] at hheader
  obtain ⟨w, hw⟩ : ∃ w : MetaWriter, w = ⟨(h.patch h.lastHeight 0).bytes, [], FLUSH_BATCH_BYTES, 0⟩ :=
    ⟨_, rfl⟩
  have hzero : w.count = 0 := by rw [hw]
  have hblocks := (MetaWriter.writeBlocks_spec w blocks).2
  have hlt := hfits.count_lt
  obtain ⟨file, hclose⟩ := exists_backfillRecordCount
    (show (blocks.foldl MetaWriter.writeBlock w).count < 2 ^ 64 by omega)
    (blocks.foldl MetaWriter.writeBlock w).flush.written
  refine ⟨file, ?_⟩
  simp only [metaFile, MetaWriter.construct, bind_eq_ok_iff]
  exact ⟨w, ⟨_, hheader, congrArg Except.ok hw.symm⟩, hclose⟩

end UtxoTracker.DatFiles

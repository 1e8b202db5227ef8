import UtxoTracker.Bulk.MetaReader
import UtxoTracker.Proof.Writers
/-!
# What the block reader shows

A round of the reader shows the record it stands at, unless the record does not fit the scratch
buffer: then the buffer is a new one and the fixed part shows as zeros.
-/

namespace UtxoTracker.DatFiles

open ByteString Fallible ValueCodec
open Xdmp (subarray_of_at)

/-! ### The scratch buffer -/

theorem doubled_spec {cap : Nat} (need : Nat) (hpos : 0 < cap) :
    need ≤ doubled cap need ∧ cap ≤ doubled cap need := by
  rw [doubled]
  split_ifs with hmore
  · obtain ⟨hneed, hcap⟩ := doubled_spec need (by omega : 0 < cap * 2)
    exact ⟨hneed, by omega⟩
  · omega
termination_by need - cap

/-- The size of the scratch buffer after `ensureScratch`. -/
def grown (cap need : Nat) : Nat := if cap < need then doubled (cap * 2) need else cap

theorem length_ensureScratch (scratch : List UInt8) (need : Nat) :
    (ensureScratch scratch need).length = grown scratch.length need := by
  unfold ensureScratch grown
  split_ifs
  · exact length_alloc _
  · rfl

theorem grown_spec {cap : Nat} (need : Nat) (hpos : 0 < cap) :
    need ≤ grown cap need ∧ cap ≤ grown cap need := by
  unfold grown
  split_ifs with hlarge
  · obtain ⟨hneed, hcap⟩ := doubled_spec need (by omega : 0 < cap * 2)
    exact ⟨hneed, by omega⟩
  · omega

theorem readInto_of_at {file buf bytes more : List UInt8} {offset length filePos : Nat}
    (hat : At file filePos (bytes ++ more)) (hlength : bytes.length = length) :
    readInto file buf offset length filePos = .ok (writeAt buf offset bytes) := by
  have hend := hat.length_eq
  rw [List.length_append] at hend
  unfold readInto
  rw [if_neg (by omega), subarray_of_at hat hlength]

/-! ### The record -/

namespace MetaBlock

variable (b : MetaBlock)

/-- The first 72 bytes of the record, as four fields. -/
def head : List UInt8 :=
  toBE 4 (b.height % 2 ^ 32).toNat ++ toBE 4 (b.timestamp % 2 ^ 32).toNat ++
    b.blockHash.toList ++ b.previousHash.toList

def txids : List UInt8 := b.txidList.flatMap Vector.toList

/-- The fixed part of the record. -/
def fixed : List UInt8 := b.head ++ toBE 4 (b.txidList.length % 2 ^ 32)

def size : Nat := recordSizeOf b.txidList.length

theorem record_eq : b.record = b.fixed ++ b.txids := rfl

theorem length_head : b.head.length = 72 := by
  simp [head]

theorem length_fixed : b.fixed.length = MIN_RECORD_SIZE := by
  simp [fixed, length_head, MIN_RECORD_SIZE]

theorem length_txids : b.txids.length = META_TXID_SIZE * b.txidList.length := by
  unfold txids
  induction b.txidList with
  | nil => rfl
  | cons txid rest ih =>
      rw [List.flatMap_cons, List.length_append, ih, Vector.length_toList, List.length_cons,
        META_TXID_SIZE]
      omega

theorem length_record : b.record.length = b.size := by
  rw [record_eq, List.length_append, length_fixed, length_txids]
  rfl

/-- What was written. -/
def tuple : BlockTuple :=
  { height := b.height
    timestamp := b.timestamp
    blockHash := b.blockHash.toList
    previousHash := b.previousHash.toList
    txidList := b.txidList.map Vector.toList }

/-- What is shown of a record that did not fit the scratch buffer. -/
def blanked : BlockTuple :=
  { b.tuple with height := 0, timestamp := 0, blockHash := alloc 32, previousHash := alloc 32 }

/-- What is shown over a scratch buffer of `cap` bytes. -/
def shown (cap : Nat) : BlockTuple := if cap < b.size then b.blanked else b.tuple

/-- The numbers fit their fields. -/
structure InRange : Prop where
  height_nonneg : 0 ≤ b.height
  height_lt : b.height < 2 ^ 32
  timestamp_nonneg : 0 ≤ b.timestamp
  timestamp_lt : b.timestamp < 2 ^ 32
  txids_lt : b.txidList.length < 2 ^ 32

end MetaBlock

/-- The txids behind the fixed part. -/
theorem txids_of_buffer (before rest : List UInt8) (txids : List (Vector UInt8 32)) :
    ((List.range txids.length).map fun i =>
      subarray (before ++ (txids.flatMap Vector.toList ++ rest)) (before.length + META_TXID_SIZE * i)
        META_TXID_SIZE) = txids.map Vector.toList := by
  induction txids generalizing before with
  | nil => rfl
  | cons txid txids ih =>
      have hlength : txid.toList.length = META_TXID_SIZE := txid.length_toList
      have hsplit : before ++ ((txid :: txids).flatMap Vector.toList ++ rest) =
          before ++ (txid.toList ++ (txids.flatMap Vector.toList ++ rest)) := by
        rw [List.flatMap_cons, List.append_assoc]
      rw [List.length_cons, List.range_succ_eq_map, List.map_cons, List.map_cons, List.map_map, hsplit]
      congr 1
      · exact subarray_append before txid.toList _ rfl hlength
      · rw [← ih (before ++ txid.toList)]
        apply List.map_congr_left
        intro i _
        have hoffset : before.length + META_TXID_SIZE * (i + 1) =
            (before ++ txid.toList).length + META_TXID_SIZE * i := by
          rw [List.length_append, hlength, Nat.mul_succ]
          omega
        rw [Function.comp_apply, Nat.succ_eq_add_one, hoffset, List.append_assoc before]

/-- What a buffer of these fields shows. -/
theorem scratchTuple_of_fields {height timestamp : Nat} {blockHash previousHash count rest : List UInt8}
    (txidList : List (Vector UInt8 32)) (hheight : height < 2 ^ 32) (htimestamp : timestamp < 2 ^ 32)
    (hblock : blockHash.length = 32) (hprevious : previousHash.length = 32)
    (hcount : count.length = 4) {buf : List UInt8}
    (hbuf : buf = toBE 4 height ++ (toBE 4 timestamp ++ (blockHash ++ (previousHash ++
      (count ++ (txidList.flatMap Vector.toList ++ rest)))))) :
    scratchTuple buf txidList.length =
      ⟨height, timestamp, blockHash, previousHash, txidList.map Vector.toList⟩ := by
  have hstart : At buf 0 _ := ⟨[], hbuf, rfl⟩
  have htime := hstart.skip_of_length (length_toBE 4 _)
  have hhash := htime.skip_of_length (length_toBE 4 _)
  have hprev := hhash.skip_of_length hblock
  have hnumber {n : Nat} (hn : n < 2 ^ 32) : ofBE (toBE 4 n) = n := ofBE_toBE_of_lt hn
  obtain ⟨before, hbefore⟩ : ∃ before, before = toBE 4 height ++ (toBE 4 timestamp ++ (blockHash ++
      (previousHash ++ count))) := ⟨_, rfl⟩
  have hsplit : buf = before ++ (txidList.flatMap Vector.toList ++ rest) := by
    rw [hbuf, hbefore]
    simp only [List.append_assoc]
  have hlength : before.length = MIN_RECORD_SIZE := by
    rw [hbefore]
    simp [hblock, hprevious, hcount, MIN_RECORD_SIZE]
  have htxids := txids_of_buffer before rest txidList
  rw [← hsplit, hlength] at htxids
  unfold scratchTuple readUInt32BE
  rw [htxids, subarray_of_at hstart (length_toBE 4 _), subarray_of_at htime (length_toBE 4 _),
    subarray_of_at hhash hblock, subarray_of_at hprev hprevious, hnumber hheight, hnumber htimestamp]

/-! ### One round -/

variable {b : MetaBlock} {file more scratch : List UInt8} {pos : Nat}

theorem MetaBlock.InRange.txCount_eq (hrange : b.InRange) (rest : List UInt8) :
    readUInt32BE (b.fixed ++ rest) 72 = b.txidList.length := by
  have hat : At (b.fixed ++ rest) 0 (b.head ++ (toBE 4 (b.txidList.length % 2 ^ 32) ++ rest)) :=
    ⟨[], by rw [MetaBlock.fixed, List.append_assoc]; rfl, rfl⟩
  have hcount := hat.skip_of_length b.length_head
  rw [readUInt32BE, subarray_of_at hcount (length_toBE 4 _), Nat.mod_eq_of_lt hrange.txids_lt]
  exact ofBE_toBE_of_lt hrange.txids_lt

/-- A buffer with the whole record shows it. -/
theorem MetaBlock.InRange.scratchTuple_eq (hrange : b.InRange) (rest : List UInt8) :
    scratchTuple (b.fixed ++ (b.txids ++ rest)) b.txidList.length = b.tuple := by
  obtain ⟨hheight, hheight', htime, htime', -⟩ := hrange
  have hfields : b.fixed ++ (b.txids ++ rest) = toBE 4 (b.height % 2 ^ 32).toNat ++
      (toBE 4 (b.timestamp % 2 ^ 32).toNat ++ (b.blockHash.toList ++ (b.previousHash.toList ++
        (toBE 4 (b.txidList.length % 2 ^ 32) ++ (b.txids ++ rest))))) := by
    simp only [MetaBlock.fixed, MetaBlock.head, List.append_assoc]
  have hshown := scratchTuple_of_fields b.txidList (by omega) (by omega) b.blockHash.length_toList
    b.previousHash.length_toList (length_toBE 4 _) hfields
  have hback : ((b.height % 2 ^ 32).toNat : Int) = b.height := by omega
  have hback' : ((b.timestamp % 2 ^ 32).toNat : Int) = b.timestamp := by omega
  rw [hshown, hback, hback']
  rfl

/-- A new buffer with the txids only shows zeros for the rest. -/
theorem scratchTuple_blanked (b : MetaBlock) (rest : List UInt8) :
    scratchTuple (alloc MIN_RECORD_SIZE ++ (b.txids ++ rest)) b.txidList.length = b.blanked := by
  have hzero : toBE 4 0 = alloc 4 := by decide
  have hsplit : alloc MIN_RECORD_SIZE = alloc 4 ++ (alloc 4 ++ (alloc 32 ++ (alloc 32 ++ alloc 4))) := by
    decide
  have hfields : alloc MIN_RECORD_SIZE ++ (b.txids ++ rest) = toBE 4 0 ++ (toBE 4 0 ++ (alloc 32 ++
      (alloc 32 ++ (alloc 4 ++ (b.txids ++ rest))))) := by
    rw [hzero, hsplit]
    simp only [List.append_assoc]
  exact scratchTuple_of_fields b.txidList (Nat.two_pow_pos 32) (Nat.two_pow_pos 32) (length_alloc 32)
    (length_alloc 32) (length_alloc 4) hfields

theorem readTxids_of_at {buf : List UInt8} (hat : At file (pos + MIN_RECORD_SIZE) (b.txids ++ more)) :
    readTxids file pos b.txidList.length buf = .ok (writeAt buf MIN_RECORD_SIZE b.txids) := by
  unfold readTxids
  split_ifs with hsome
  · exact readInto_of_at hat b.length_txids
  · have hnone : b.txids = [] := by
      apply List.eq_nil_of_length_eq_zero
      rw [b.length_txids, Nat.eq_zero_of_not_pos hsome, Nat.mul_zero]
    rw [hnone, writeAt, List.take_nil, List.append_nil, List.length_nil, Nat.add_zero,
      List.take_append_drop]

/-- **A round reads the record it stands at**, and shows it if it fits the scratch buffer. -/
theorem readRecord_record (hrange : b.InRange) (hat : At file pos (b.record ++ more))
    (hscratch : MIN_RECORD_SIZE ≤ scratch.length) :
    ∃ scratch', readRecord file pos scratch = .ok (b.txidList.length, scratch') ∧
      scratchTuple scratch' b.txidList.length = b.shown scratch.length ∧
      scratch'.length = grown scratch.length b.size := by
  have hend := hat.length_eq
  rw [List.length_append, b.length_record] at hend
  have hsize : b.size = MIN_RECORD_SIZE + META_TXID_SIZE * b.txidList.length := rfl
  have hlengths := b.length_txids
  rw [b.record_eq, List.append_assoc] at hat
  have htxids : At file (pos + MIN_RECORD_SIZE) (b.txids ++ more) :=
    hat.skip_of_length b.length_fixed
  have hkeep : ensureScratch scratch MIN_RECORD_SIZE = scratch := if_neg (by omega)
  have hfirst : writeAt scratch 0 b.fixed = b.fixed ++ scratch.drop MIN_RECORD_SIZE :=
    writeAt_slot (show ([] : List UInt8).length = 0 from rfl) b.length_fixed (Nat.zero_add _) hscratch
  obtain ⟨buf, hbuf⟩ : ∃ buf, buf = b.fixed ++ scratch.drop MIN_RECORD_SIZE := ⟨_, rfl⟩
  have hlength : buf.length = scratch.length := by
    rw [hbuf, List.length_append, b.length_fixed, List.length_drop]
    omega
  have hread : readRecord file pos scratch =
      .ok (b.txidList.length, writeAt (ensureScratch buf b.size) MIN_RECORD_SIZE b.txids) := by
    unfold readRecord
    dsimp only
    rw [if_neg (by omega), hkeep, readInto_of_at hat b.length_fixed, hfirst, bind_of_ok rfl,
      hrange.txCount_eq, ← hbuf, if_neg (by rw [recordSizeOf]; omega), readTxids_of_at htxids]
    rfl
  have hgrown : grown buf.length b.size = grown scratch.length b.size := by rw [hlength]
  obtain ⟨hneed, -⟩ := grown_spec b.size (show 0 < scratch.length by
    have : 0 < MIN_RECORD_SIZE := by decide
    omega)
  refine ⟨_, hread, ?_, ?_⟩
  · unfold MetaBlock.shown
    split_ifs with hlarge
    · obtain ⟨cap, hcap⟩ : ∃ cap, cap = doubled (buf.length * 2) b.size := ⟨_, rfl⟩
      have hnew : ensureScratch buf b.size = alloc cap := by
        rw [ensureScratch, if_pos (by omega), hcap]
      have hroom : b.size ≤ cap := by
        rw [grown, if_pos hlarge, ← hlength, ← hcap] at hneed
        exact hneed
      obtain ⟨slot, hslot⟩ : ∃ slot, alloc cap = slot := ⟨_, rfl⟩
      have hsplit : alloc cap = alloc MIN_RECORD_SIZE ++ slot.drop MIN_RECORD_SIZE := by
        rw [← hslot, alloc, List.drop_replicate, alloc, List.replicate_append_replicate]
        congr 1
        omega
      have hwrite := writeAt_slot (length_alloc MIN_RECORD_SIZE) b.length_txids rfl
        (show MIN_RECORD_SIZE + META_TXID_SIZE * b.txidList.length ≤ slot.length by
          rw [← hslot, length_alloc]
          omega)
      rw [hnew, hsplit, hwrite, List.append_assoc]
      exact scratchTuple_blanked b _
    · have hold : ensureScratch buf b.size = buf := if_neg (by omega)
      have hwrite := writeAt_slot b.length_fixed b.length_txids rfl
        (show MIN_RECORD_SIZE + META_TXID_SIZE * b.txidList.length ≤ scratch.length by omega)
      rw [hold, hbuf, hwrite, List.append_assoc]
      exact hrange.scratchTuple_eq _
  · rw [length_writeAt rfl (by rw [length_ensureScratch]; omega), length_ensureScratch, hgrown]

/-- **A round refuses a record that is cut.** -/
theorem readRecord_cut (hrange : b.InRange) {k : Nat} (hcut : k < b.record.length)
    (hat : At file pos (b.record.take k)) (hscratch : MIN_RECORD_SIZE ≤ scratch.length) :
    ∃ e, readRecord file pos scratch = .error e := by
  have hend := hat.length_eq
  rw [List.length_take] at hend
  have hrecord : b.record.length = MIN_RECORD_SIZE + META_TXID_SIZE * b.txidList.length :=
    b.length_record
  unfold readRecord
  dsimp only
  split_ifs with hshort
  · exact ⟨_, rfl⟩
  · have hsplit : b.record.take k = b.fixed ++ b.txids.take (k - MIN_RECORD_SIZE) := by
      rw [b.record_eq, List.take_append, b.length_fixed, List.take_of_length_le]
      rw [b.length_fixed]
      omega
    rw [hsplit] at hat
    have hkeep : ensureScratch scratch MIN_RECORD_SIZE = scratch := if_neg (by omega)
    have hfirst : writeAt scratch 0 b.fixed = b.fixed ++ scratch.drop MIN_RECORD_SIZE :=
      writeAt_slot (show ([] : List UInt8).length = 0 from rfl) b.length_fixed (Nat.zero_add _)
        hscratch
    rw [hkeep, readInto_of_at hat b.length_fixed, hfirst, bind_of_ok rfl, hrange.txCount_eq,
      if_pos (by rw [recordSizeOf]; omega)]
    exact ⟨_, rfl⟩

/-! ### All rounds -/

/-- What is shown of some records, from a scratch buffer of `cap` bytes on. -/
def shownBlocks : Nat → List MetaBlock → List BlockTuple
  | _, [] => []
  | cap, b :: rest => b.shown cap :: shownBlocks (grown cap b.size) rest

variable {blocks : List MetaBlock} {blockCount yielded : Nat}

theorem le_length_of_grown {scratch' : List UInt8} (hscratch : MIN_RECORD_SIZE ≤ scratch.length)
    (hlength : scratch'.length = grown scratch.length b.size) :
    MIN_RECORD_SIZE ≤ scratch'.length := by
  have hpos : 0 < MIN_RECORD_SIZE := by decide
  obtain ⟨-, hcap⟩ := grown_spec b.size (show 0 < scratch.length by omega)
  omega

/-- **The reader shows every record in turn** and ends. -/
theorem blocksFrom_records (hrange : ∀ b ∈ blocks, b.InRange)
    (hat : At file pos (blocks.flatMap MetaBlock.record))
    (hscratch : MIN_RECORD_SIZE ≤ scratch.length) (hcount : yielded + blocks.length = blockCount) :
    blocksFrom file blockCount pos yielded scratch = .ended (shownBlocks scratch.length blocks) := by
  induction blocks generalizing pos yielded scratch with
  | nil =>
      have hend := hat.length_eq
      rw [List.flatMap_nil, List.length_nil] at hend
      rw [List.length_nil] at hcount
      rw [blocksFrom, if_neg (by omega), if_neg (by omega)]
      rfl
  | cons b rest ih =>
      obtain ⟨hb, hrest⟩ := List.forall_mem_cons.mp hrange
      rw [List.flatMap_cons] at hat
      have hend := hat.length_eq
      rw [List.length_append, b.length_record] at hend
      have hpos : 0 < b.size := Nat.add_pos_left (by decide) _
      obtain ⟨scratch', hread, hshown, hlength⟩ := readRecord_record hb hat hscratch
      have hnext : At file (pos + recordSizeOf b.txidList.length) (rest.flatMap MetaBlock.record) :=
        hat.skip_of_length b.length_record
      rw [List.length_cons] at hcount
      rw [blocksFrom, if_pos (by omega), hread]
      dsimp only
      rw [ih hrest hnext (le_length_of_grown hscratch hlength) (by omega), hshown,
        Generator.cons_ended, hlength]
      rfl

/-- **A stream that is cut makes the reader throw.** -/
theorem blocksFrom_cut {k : Nat} (hrange : ∀ b ∈ blocks, b.InRange)
    (hcut : k < (blocks.flatMap MetaBlock.record).length)
    (hat : At file pos ((blocks.flatMap MetaBlock.record).take k))
    (hscratch : MIN_RECORD_SIZE ≤ scratch.length) (hcount : yielded + blocks.length = blockCount) :
    ∃ e, (blocksFrom file blockCount pos yielded scratch).thrown = some e := by
  induction blocks generalizing pos yielded scratch k with
  | nil => exact absurd hcut (Nat.not_lt_zero k)
  | cons b rest ih =>
      obtain ⟨hb, hrest⟩ := List.forall_mem_cons.mp hrange
      have hend := hat.length_eq
      rw [List.length_take] at hend
      rw [List.length_cons] at hcount
      by_cases hnone : k = 0
      · -- Cut between two records: the count tells.
        rw [blocksFrom, if_neg (by omega), if_pos (by omega)]
        exact ⟨_, rfl⟩
      rw [blocksFrom, if_pos (by omega)]
      rw [List.flatMap_cons] at hcut hat
      by_cases hshort : k < b.record.length
      · rw [List.take_append_of_le_length hshort.le] at hat
        obtain ⟨e, hread⟩ := readRecord_cut hb hshort hat hscratch
        rw [hread]
        exact ⟨e, rfl⟩
      · rw [List.take_append, List.take_of_length_le (Nat.le_of_not_lt hshort)] at hat
        rw [List.length_append] at hcut
        obtain ⟨scratch', hread, -, hlength⟩ := readRecord_record hb hat hscratch
        have hnext : At file (pos + recordSizeOf b.txidList.length)
            ((rest.flatMap MetaBlock.record).take (k - b.record.length)) :=
          hat.skip_of_length b.length_record
        have hcount' : (yielded + 1) + rest.length = blockCount := by omega
        obtain ⟨e, hthrown⟩ := ih hrest (by omega) hnext (le_length_of_grown hscratch hlength) hcount'
        rw [hread]
        exact ⟨e, hthrown⟩

/-! ### A whole file -/

/-- The reader's first scratch buffer. -/
def firstScratch : List UInt8 := alloc (max IO_CHUNK_BYTES (MIN_RECORD_SIZE * 2))

theorem length_firstScratch : firstScratch.length = IO_CHUNK_BYTES :=
  (length_alloc _).trans (by decide)

/-- A reader of a block stream starts behind its header. -/
theorem readMetaFile_of_stream {h : StreamHeader} {body : List UInt8} (hstream : StreamFile h body file)
    (hmagic : h.magic = MAGIC_META) (filePath : String) :
    readMetaFile filePath file = blocksFrom file h.recordCount HEADER_SIZE 0 firstScratch := by
  have htake : file.take HEADER_SIZE = h.bytes := hstream.eq ▸ hstream.fits.take_header
  have hlength := congrArg List.length hstream.eq
  rw [List.length_append, hstream.fits.length_bytes] at hlength
  have hstart : h.bytes.take 8 = MAGIC_META := by
    rw [StreamHeader.bytes_eq, hmagic]
    exact List.take_left' rfl
  have hcount : recordCountOf h.bytes = h.recordCount :=
    congrArg DatHeader.recordCount (hstream.fits.ofHeader_bytes 0)
  have hheader : HEADER_SIZE = 64 := rfl
  unfold readMetaFile
  dsimp only
  rw [if_neg (by omega), htake, hstart, if_neg (not_not.mpr rfl), hcount]
  rfl

theorem StreamFile.at_body {h : StreamHeader} {body : List UInt8} (hstream : StreamFile h body file) :
    At file HEADER_SIZE body := ⟨h.bytes, hstream.eq, hstream.fits.length_bytes⟩

/-- A stream cut behind its header. -/
theorem StreamFile.cut {h : StreamHeader} {body : List UInt8} (hstream : StreamFile h body file)
    {k : Nat} (hk : HEADER_SIZE ≤ k) : StreamFile h (body.take (k - HEADER_SIZE)) (file.take k) := by
  refine ⟨hstream.fits, ?_⟩
  have hlength : h.bytes.length = HEADER_SIZE := hstream.fits.length_bytes
  rw [hstream.eq, List.take_append, hlength, List.take_of_length_le (by omega)]

/-- **A block stream is read to its end**, each record as the scratch buffer shows it. -/
theorem readMetaFile_eq {h : StreamHeader} (hmagic : h.magic = MAGIC_META)
    (hcount : h.recordCount = blocks.length) (hrange : ∀ b ∈ blocks, b.InRange)
    (hstream : StreamFile h (blocks.flatMap MetaBlock.record) file) (filePath : String) :
    readMetaFile filePath file = .ended (shownBlocks IO_CHUNK_BYTES blocks) := by
  have hscratch : MIN_RECORD_SIZE ≤ firstScratch.length := by
    rw [length_firstScratch]
    decide
  rw [readMetaFile_of_stream hstream hmagic, blocksFrom_records hrange hstream.at_body hscratch,
    length_firstScratch]
  rw [hcount, Nat.zero_add]

/-- **A block stream that is cut is refused.** -/
theorem readMetaFile_cut {h : StreamHeader} (hmagic : h.magic = MAGIC_META)
    (hcount : h.recordCount = blocks.length) (hrange : ∀ b ∈ blocks, b.InRange)
    (hstream : StreamFile h (blocks.flatMap MetaBlock.record) file) (filePath : String) {k : Nat}
    (hk : HEADER_SIZE ≤ k) (hcut : k < file.length) :
    ∃ e, (readMetaFile filePath (file.take k)).thrown = some e := by
  have hscratch : MIN_RECORD_SIZE ≤ firstScratch.length := by
    rw [length_firstScratch]
    decide
  have hlength := congrArg List.length hstream.eq
  rw [List.length_append, hstream.fits.length_bytes] at hlength
  have hheader : HEADER_SIZE = 64 := rfl
  have hbody : k - HEADER_SIZE < (blocks.flatMap MetaBlock.record).length := by omega
  rw [readMetaFile_of_stream (hstream.cut hk) hmagic]
  exact blocksFrom_cut hrange hbody (hstream.cut hk).at_body hscratch (by rw [hcount, Nat.zero_add])

end UtxoTracker.DatFiles

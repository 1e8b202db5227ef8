import UtxoTracker.Bulk.Dump
import UtxoTracker.Safety.ValueCodec
/-!
# What a dump file holds

The header and the records of a dump file in closed form, what the reader makes of them, and what it
makes of a file that is cut.
-/

namespace UtxoTracker.Xdmp

open ByteString Fallible ValueCodec

/-! ### The header -/

/-- A field more of a buffer whose fields before `offset` are written. -/
theorem writeUInt32LE_ok_iff {before slot buf : List UInt8} {offset next : Nat} {value : Int}
    (hoffset : before.length = offset) (hnext : offset + 4 = next) (hroom : next ≤ slot.length) :
    writeUInt32LE (before ++ slot.drop offset) value offset = .ok buf ↔
      ∃ n : Nat, value = n ∧ n < 2 ^ 32 ∧ buf = (before ++ toLE 4 n) ++ slot.drop next := by
  have hwrite : ∀ n, writeAt (before ++ slot.drop offset) offset (toLE 4 n) =
      (before ++ toLE 4 n) ++ slot.drop next := by
    intro n
    exact writeAt_slot hoffset (length_toLE 4 n) hnext hroom
  rw [writeUInt32LE]
  split_ifs with hrange
  · apply iff_of_false
    · simp
    · rintro ⟨n, rfl, hlt, -⟩
      omega
  · rw [Except.ok.injEq, hwrite]
    constructor
    · rintro rfl
      exact ⟨value.toNat, by omega, by omega, rfl⟩
    · rintro ⟨n, rfl, -, rfl⟩
      rfl

/-- The first field of a buffer. -/
theorem writeUInt32LE_start_ok_iff {slot buf : List UInt8} {value : Int} (hroom : 4 ≤ slot.length) :
    writeUInt32LE slot value 0 = .ok buf ↔
      ∃ n : Nat, value = n ∧ n < 2 ^ 32 ∧ buf = toLE 4 n ++ slot.drop 4 :=
  writeUInt32LE_ok_iff (show ([] : List UInt8).length = 0 from rfl) rfl hroom

theorem subarray_of_at {buf field rest : List UInt8} {offset width : Nat}
    (hat : At buf offset (field ++ rest)) (hwidth : field.length = width) :
    subarray buf offset width = field := by
  obtain ⟨before, hbuf, hoffset⟩ := hat
  exact subarray_eq before rest hbuf hoffset hwidth

theorem readUInt32LE_of_at {buf rest : List UInt8} {offset n : Nat}
    (hat : At buf offset (toLE 4 n ++ rest)) (hfits : n < 2 ^ 32) : readUInt32LE buf offset = n := by
  rw [readUInt32LE, subarray_of_at hat (length_toLE 4 n), ofLE_toLE]
  exact Nat.mod_eq_of_lt hfits

/-- The numbers of a header. -/
structure HeaderFields where
  chain : ChainName
  netName : NetworkName
  firstHeight : Nat
  lastHeight : Nat
  chainTipAtDump : Nat
  deriving DecidableEq, Repr

namespace HeaderFields

variable (f : HeaderFields)

def blockCount : Nat := f.lastHeight + 1 - f.firstHeight

/-- The range is not inverted, and every number fits its field. -/
structure Fits : Prop where
  ordered : f.firstHeight ≤ f.lastHeight
  first_lt : f.firstHeight < 2 ^ 32
  last_lt : f.lastHeight < 2 ^ 32
  count_lt : f.blockCount < 2 ^ 32
  tip_lt : f.chainTipAtDump < 2 ^ 32

def identity : List UInt8 :=
  MAGIC ++ [CHAIN_CODES f.chain] ++ [NETWORK_CODES f.netName] ++ toLE 2 FILE_VERSION

def bytes : List UInt8 :=
  f.identity ++ toLE 4 f.firstHeight ++ toLE 4 f.lastHeight ++ toLE 4 f.blockCount ++
    toLE 4 f.chainTipAtDump ++ (alloc HEADER_SIZE).drop 28

@[simp] theorem length_identity : f.identity.length = 12 := by
  simp [identity, MAGIC]

@[simp] theorem length_bytes : f.bytes.length = 64 := by
  simp [bytes, HEADER_SIZE]

theorem identity_start : writeAt (writeAt (writeAt (writeAt (alloc HEADER_SIZE) 0 MAGIC) 8
    [CHAIN_CODES f.chain]) 9 [NETWORK_CODES f.netName]) 10 (toLE 2 FILE_VERSION) =
      f.identity ++ (alloc HEADER_SIZE).drop 12 := by
  obtain ⟨slot, hslot⟩ : ∃ slot, alloc HEADER_SIZE = slot := ⟨_, rfl⟩
  have hroom : slot.length = 64 := hslot ▸ length_alloc 64
  rw [hslot]
  have hfirst : writeAt slot 0 MAGIC = MAGIC ++ slot.drop 8 :=
    writeAt_slot (show ([] : List UInt8).length = 0 from rfl) (show MAGIC.length = 8 from rfl) rfl
      (by omega)
  rw [hfirst, writeAt_slot (show MAGIC.length = 8 from rfl) (List.length_singleton) rfl (by omega),
    writeAt_slot (by simp [MAGIC]) (List.length_singleton) rfl (by omega),
    writeAt_slot (by simp [MAGIC]) (length_toLE 2 _) rfl (by omega)]
  rfl

theorem makeHeader_ok_iff (hordered : f.firstHeight ≤ f.lastHeight) {header : List UInt8} :
    makeHeader f.chain f.netName f.firstHeight f.lastHeight f.chainTipAtDump = .ok header ↔
      f.Fits ∧ header = f.bytes := by
  have hroom : (alloc HEADER_SIZE).length = 64 := length_alloc 64
  have hcount : (f.lastHeight : Int) - f.firstHeight + 1 = (f.blockCount : Int) := by
    unfold blockCount
    omega
  unfold makeHeader
  dsimp only
  rw [f.identity_start, hcount]
  simp only [bind_eq_ok_iff]
  constructor
  · rintro ⟨_, hfirst, _, hlast, _, hblocks, htip⟩
    obtain ⟨n, hn, hfits, rfl⟩ :=
      (writeUInt32LE_ok_iff f.length_identity rfl (by omega)).mp hfirst
    obtain rfl : f.firstHeight = n := by omega
    obtain ⟨n, hn, hfits', rfl⟩ := (writeUInt32LE_ok_iff (by simp) rfl (by omega)).mp hlast
    obtain rfl : f.lastHeight = n := by omega
    obtain ⟨n, hn, hfits'', rfl⟩ := (writeUInt32LE_ok_iff (by simp) rfl (by omega)).mp hblocks
    obtain rfl : f.blockCount = n := by omega
    obtain ⟨n, hn, hfits''', rfl⟩ := (writeUInt32LE_ok_iff (by simp) rfl (by omega)).mp htip
    obtain rfl : f.chainTipAtDump = n := by omega
    exact ⟨⟨hordered, hfits, hfits', hfits'', hfits'''⟩, rfl⟩
  · rintro ⟨hfits, rfl⟩
    refine ⟨_, (writeUInt32LE_ok_iff f.length_identity rfl (by omega)).mpr
      ⟨_, rfl, hfits.first_lt, rfl⟩, _, (writeUInt32LE_ok_iff (by simp) rfl (by omega)).mpr
      ⟨_, rfl, hfits.last_lt, rfl⟩, _, (writeUInt32LE_ok_iff (by simp) rfl (by omega)).mpr
      ⟨_, rfl, hfits.count_lt, rfl⟩, ?_⟩
    exact (writeUInt32LE_ok_iff (by simp) rfl (by omega)).mpr ⟨_, rfl, hfits.tip_lt, rfl⟩

/-! ### Reading the header -/

variable {f}

/-- The reader of the file. -/
def reader (f : HeaderFields) (filePath : String) : XdmpReader :=
  { filePath
    chain := f.chain
    network := f.netName
    version := FILE_VERSION
    firstHeight := f.firstHeight
    lastHeight := f.lastHeight
    blockCount := f.blockCount
    chainTipAtDump := f.chainTipAtDump }

theorem bytes_eq : f.bytes = MAGIC ++ ([CHAIN_CODES f.chain] ++ ([NETWORK_CODES f.netName] ++
    (toLE 2 FILE_VERSION ++ (toLE 4 f.firstHeight ++ (toLE 4 f.lastHeight ++ (toLE 4 f.blockCount ++
      (toLE 4 f.chainTipAtDump ++ (alloc HEADER_SIZE).drop 28))))))) := by
  simp only [bytes, identity, List.append_assoc]

theorem ofHeader_bytes (hfits : f.Fits) (filePath : String) :
    XdmpReader.ofHeader filePath f.bytes f.chain f.netName = f.reader filePath := by
  have hmagic : At f.bytes 0 _ := bytes_eq ▸ At.start f.bytes
  have hchain := hmagic.skip_of_length (show MAGIC.length = 8 from rfl)
  have hversion := (hchain.skip_of_length List.length_singleton).skip_of_length
    List.length_singleton
  have hfirst := hversion.skip_of_length (length_toLE 2 _)
  have hlast := hfirst.skip_of_length (length_toLE 4 _)
  have hcount := hlast.skip_of_length (length_toLE 4 _)
  have htip := hcount.skip_of_length (length_toLE 4 _)
  have hnumber : ofLE (subarray f.bytes 10 2) = FILE_VERSION := by
    rw [subarray_of_at hversion (length_toLE 2 _), ofLE_toLE]
    rfl
  rw [XdmpReader.ofHeader, hnumber, readUInt32LE_of_at hfirst hfits.first_lt,
    readUInt32LE_of_at hlast hfits.last_lt, readUInt32LE_of_at hcount hfits.count_lt,
    readUInt32LE_of_at htip hfits.tip_lt]
  rfl

theorem CHAIN_NAMES_code (chain : ChainName) : CHAIN_NAMES (CHAIN_CODES chain) = some chain := by
  cases chain <;> rfl

theorem NETWORK_NAMES_code (network : NetworkName) :
    NETWORK_NAMES (NETWORK_CODES network) = some network := by
  cases network <;> rfl

/-- The reader that the constructor makes of a file with the header. -/
theorem construct_eq (hfits : f.Fits) (filePath : String) (body : List UInt8) :
    XdmpReader.construct filePath (f.bytes ++ body) = .ok (f.reader filePath) := by
  have hheader : readSync (f.bytes ++ body) HEADER_SIZE 0 = f.bytes :=
    subarray_of_at (At.start _) f.length_bytes
  have hmagic : f.bytes.take 8 = MAGIC := by
    rw [bytes_eq]
    exact List.take_left' rfl
  have hchain : f.bytes.getD 8 0 = CHAIN_CODES f.chain := by
    rw [bytes_eq]
    rfl
  have hnet : f.bytes.getD 9 0 = NETWORK_CODES f.netName := by
    rw [bytes_eq]
    rfl
  have hversion : ofLE (subarray f.bytes 10 2) = FILE_VERSION :=
    congrArg XdmpReader.version (ofHeader_bytes hfits filePath)
  have hcodes : checkCodes filePath f.bytes = .ok (f.reader filePath) := by
    simp only [checkCodes, hchain, hnet, CHAIN_NAMES_code, NETWORK_NAMES_code, hversion, ne_eq,
      not_true_eq_false, if_false, ofHeader_bytes hfits]
  have hcount : ((f.reader filePath).blockCount : Int) = (f.reader filePath).expectedCount := by
    have := hfits.ordered
    simp only [XdmpReader.expectedCount, reader, blockCount]
    omega
  have hsize : f.bytes.length = HEADER_SIZE := f.length_bytes
  unfold XdmpReader.construct
  dsimp only
  rw [hheader, if_neg (not_not.mpr hsize), if_neg (not_not.mpr hmagic), bind_of_ok hcodes,
    if_neg (not_not.mpr hcount)]

/-- A file cut in its header is refused. -/
theorem construct_short (filePath : String) {file : List UInt8} (hshort : file.length < 64) :
    ∃ e, XdmpReader.construct filePath file = .error e := by
  have hlength : (readSync file HEADER_SIZE 0).length ≠ HEADER_SIZE := by
    have hlt : file.length < HEADER_SIZE := hshort
    rw [readSync, subarray, List.drop_zero, List.length_take]
    omega
  unfold XdmpReader.construct
  rw [if_pos hlength]
  exact ⟨_, rfl⟩

end HeaderFields

/-! ### The records -/

/-- What a fetched block is in the file. -/
def DumpBlock.decoded (block : DumpBlock) : XdmpBlock :=
  ⟨block.height, ofHex block.hash, ofHex block.hex⟩

namespace XdmpBlock

/-- The blocks that the writer takes. -/
structure Admitted (b : XdmpBlock) : Prop where
  length_pos : 0 < b.blockBytes.length
  length_le : b.blockBytes.length ≤ MAX_BLOCK_SIZE
  length_hash : b.blockHash.length = 32
  height_lt : b.height < 2 ^ 32

def recordPrefix (b : XdmpBlock) : List UInt8 :=
  toLE 4 b.blockBytes.length ++ (toLE 4 b.height ++ b.blockHash)

def record (b : XdmpBlock) : List UInt8 := b.recordPrefix ++ b.blockBytes

theorem Admitted.length_recordPrefix {b : XdmpBlock} (hadmitted : b.Admitted) :
    b.recordPrefix.length = RECORD_PREFIX := by
  rw [recordPrefix, List.length_append, List.length_append, length_toLE, length_toLE,
    hadmitted.length_hash]
  rfl

theorem Admitted.length_lt {b : XdmpBlock} (hadmitted : b.Admitted) :
    b.blockBytes.length < 2 ^ 32 :=
  Nat.lt_of_le_of_lt hadmitted.length_le (by decide)

end XdmpBlock

theorem blockRecord_ok_iff {block : DumpBlock} {record : List UInt8} :
    blockRecord block = .ok record ↔ block.decoded.Admitted ∧ record = block.decoded.record := by
  obtain ⟨slot, hslot⟩ : ∃ slot, alloc RECORD_PREFIX = slot := ⟨_, rfl⟩
  have hroom : slot.length = 40 := hslot ▸ length_alloc 40
  unfold blockRecord
  dsimp only
  rw [hslot]
  split_ifs with hsize hhash
  · apply iff_of_false
    · simp
    · rintro ⟨⟨hpos, hle, -, -⟩, -⟩
      simp only [DumpBlock.decoded] at hpos hle
      omega
  · apply iff_of_false
    · simp
    · rintro ⟨⟨-, -, hlength, -⟩, -⟩
      exact hhash hlength
  · have hhash' : (ofHex block.hash).length = 32 := not_not.mp hhash
    have hfour : ∀ n, (toLE 4 n).length = 4 := length_toLE 4
    have hlast : ∀ n m : Nat, writeAt ((toLE 4 n ++ toLE 4 m) ++ slot.drop 8) 8
        (ofHex block.hash) ++ ofHex block.hex =
          toLE 4 n ++ (toLE 4 m ++ ofHex block.hash) ++ ofHex block.hex := by
      intro n m
      rw [writeAt_slot (by simp) hhash' rfl (by omega), List.drop_of_length_le (by omega)]
      simp only [List.append_nil, List.append_assoc]
    simp only [bind_eq_ok_iff, writeUInt32LE_start_ok_iff (show 4 ≤ slot.length by omega)]
    constructor
    · rintro ⟨_, ⟨n, hn, hfits, rfl⟩, _, hheight, hrecord⟩
      obtain rfl : (ofHex block.hex).length = n := by omega
      obtain ⟨m, hm, hfits', rfl⟩ := (writeUInt32LE_ok_iff (hfour _) rfl (by omega)).mp hheight
      obtain rfl : block.height = m := by omega
      rw [Except.ok.injEq, hlast] at hrecord
      refine ⟨⟨?_, ?_, hhash', hfits'⟩, hrecord.symm⟩
      · simp only [DumpBlock.decoded]
        omega
      · simp only [DumpBlock.decoded]
        omega
    · rintro ⟨hadmitted, rfl⟩
      refine ⟨_, ⟨_, rfl, hadmitted.length_lt, rfl⟩, _, (writeUInt32LE_ok_iff (hfour _) rfl
        (by omega)).mpr ⟨_, rfl, hadmitted.height_lt, rfl⟩, ?_⟩
      rw [Except.ok.injEq]
      exact hlast _ _

theorem writeBlockRecords_ok_iff {blocks : List DumpBlock} {file file' : List UInt8} :
    writeBlockRecords file blocks = .ok file' ↔
      (∀ block ∈ blocks, block.decoded.Admitted) ∧
        file' = file ++ blocks.flatMap fun block => block.decoded.record := by
  induction blocks generalizing file with
  | nil =>
      rw [writeBlockRecords, Except.ok.injEq, List.flatMap_nil, List.append_nil]
      constructor
      · rintro rfl
        exact ⟨fun _ hmem => absurd hmem List.not_mem_nil, rfl⟩
      · rintro ⟨-, rfl⟩
        rfl
  | cons block rest ih =>
      simp only [writeBlockRecords, bind_eq_ok_iff, blockRecord_ok_iff, ih, List.forall_mem_cons,
        List.flatMap_cons]
      constructor
      · rintro ⟨_, ⟨hadmitted, rfl⟩, hall, rfl⟩
        exact ⟨⟨hadmitted, hall⟩, List.append_assoc _ _ _⟩
      · rintro ⟨⟨hadmitted, hall⟩, rfl⟩
        exact ⟨_, ⟨hadmitted, rfl⟩, hall, (List.append_assoc _ _ _).symm⟩

/-! ### Reading the records -/

variable {file more : List UInt8} {b : XdmpBlock} {state : ReadState}

theorem readSync_of_at {tail : List UInt8} {position : Nat} (hat : At file position tail)
    (length : Nat) : readSync file length position = tail.take length := by
  rw [readSync, subarray, hat.drop_eq]

theorem XdmpBlock.Admitted.readUInt32LE_recordPrefix (hadmitted : b.Admitted) :
    readUInt32LE b.recordPrefix 0 = b.blockBytes.length ∧
      readUInt32LE b.recordPrefix 4 = b.height ∧ subarray b.recordPrefix 8 32 = b.blockHash := by
  have hsize : At b.recordPrefix 0 (toLE 4 b.blockBytes.length ++ (toLE 4 b.height ++
      (b.blockHash ++ []))) := by
    rw [List.append_nil]
    exact At.start _
  have hheight := hsize.skip_of_length (length_toLE 4 _)
  have hhash := hheight.skip_of_length (length_toLE 4 _)
  refine ⟨readUInt32LE_of_at hsize hadmitted.length_lt, readUInt32LE_of_at hheight
    hadmitted.height_lt, subarray_of_at hhash hadmitted.length_hash⟩

/-- What was read into the scratch buffer is at its start, whether or not the buffer grew. -/
theorem subarray_fillData {dataBuf read : List UInt8} {blockSize : Nat}
    (hlength : read.length = blockSize) :
    subarray (fillData dataBuf read blockSize) 0 blockSize = read := by
  obtain ⟨buf, hbuf⟩ :
      ∃ buf, (if dataBuf.length < blockSize then alloc blockSize else dataBuf) = buf := ⟨_, rfl⟩
  have hroom : blockSize ≤ buf.length := by
    rw [← hbuf]
    split_ifs with hsmall
    · rw [length_alloc]
    · omega
  have hwrite : writeAt buf 0 read = read ++ buf.drop blockSize :=
    writeAt_slot (show ([] : List UInt8).length = 0 from rfl) hlength (Nat.zero_add _) hroom
  rw [fillData, hbuf, hwrite]
  exact subarray_of_at (At.start _) hlength

/-- **A round reads the record it stands at.** -/
theorem readBlock_record (reader : XdmpReader) (blocksRead : Nat) (hadmitted : b.Admitted)
    (hat : At file state.pos (b.record ++ more)) (hheight : (b.height : Int) = state.prevHeight + 1) :
    ∃ dataBuf, reader.readBlock file blocksRead state =
      .ok (b, ⟨state.pos + b.record.length, b.height, dataBuf⟩) := by
  have hprefix := hadmitted.length_recordPrefix
  have hlength : b.record.length = RECORD_PREFIX + b.blockBytes.length := by
    rw [XdmpBlock.record, List.length_append, hprefix]
  rw [XdmpBlock.record, List.append_assoc] at hat
  have hread : readSync file RECORD_PREFIX state.pos = b.recordPrefix :=
    subarray_of_at hat hprefix
  obtain ⟨hsize, hnumber, hhash⟩ := hadmitted.readUInt32LE_recordPrefix
  have hdata : readSync file b.blockBytes.length (state.pos + RECORD_PREFIX) = b.blockBytes :=
    subarray_of_at (hat.skip_of_length hprefix) rfl
  have hpos := hadmitted.length_pos
  have hle := hadmitted.length_le
  refine ⟨fillData state.dataBuf b.blockBytes b.blockBytes.length, ?_⟩
  unfold XdmpReader.readBlock
  dsimp only
  rw [hread, hsize, hnumber, hhash, hdata, subarray_fillData rfl, if_neg (not_not.mpr hprefix),
    if_neg (by omega), if_neg (not_not.mpr hheight), if_neg (not_not.mpr rfl), hlength,
    Nat.add_assoc]

/-- **A round refuses a record that is cut.** -/
theorem readBlock_cut (reader : XdmpReader) (blocksRead : Nat) (hadmitted : b.Admitted) {k : Nat}
    (hcut : k < b.record.length) (hat : At file state.pos ((b.record ++ more).take k)) :
    ∃ e, reader.readBlock file blocksRead state = .error e := by
  have hprefix := hadmitted.length_recordPrefix
  have hlength : b.record.length = RECORD_PREFIX + b.blockBytes.length := by
    rw [XdmpBlock.record, List.length_append, hprefix]
  have htail : (b.record ++ more).take k = b.record.take k := List.take_append_of_le_length hcut.le
  rw [htail] at hat
  by_cases hshort : k < RECORD_PREFIX
  · have hread : (readSync file RECORD_PREFIX state.pos).length ≠ RECORD_PREFIX := by
      rw [readSync_of_at hat, List.length_take, List.length_take]
      omega
    unfold XdmpReader.readBlock
    dsimp only
    rw [if_pos hread]
    exact ⟨_, rfl⟩
  · have hsplit : b.record.take k = b.recordPrefix ++ b.blockBytes.take (k - RECORD_PREFIX) := by
      rw [XdmpBlock.record, List.take_append, hprefix, List.take_of_length_le (by omega)]
    rw [hsplit] at hat
    have hread : readSync file RECORD_PREFIX state.pos = b.recordPrefix :=
      subarray_of_at hat hprefix
    obtain ⟨hsize, -, -⟩ := hadmitted.readUInt32LE_recordPrefix
    have hdata : (readSync file b.blockBytes.length (state.pos + RECORD_PREFIX)).length ≠
        b.blockBytes.length := by
      rw [readSync_of_at (hat.skip_of_length hprefix), List.length_take, List.length_take]
      omega
    unfold XdmpReader.readBlock
    dsimp only
    rw [hread, hsize]
    split_ifs with hfirst hsecond hthird
    · exact ⟨_, rfl⟩
    · exact ⟨_, rfl⟩
    · exact ⟨_, rfl⟩
    · exact ⟨_, rfl⟩

/-- The heights of some blocks, from `first` on without a gap. -/
def Consecutive (first : Nat) (blocks : List XdmpBlock) : Prop :=
  blocks.map XdmpBlock.height = List.range' first blocks.length

theorem consecutive_cons {first : Nat} {blocks : List XdmpBlock} :
    Consecutive first (b :: blocks) ↔ b.height = first ∧ Consecutive (first + 1) blocks := by
  rw [Consecutive, List.map_cons, List.length_cons, List.range'_succ, List.cons.injEq]
  rfl

variable {reader : XdmpReader}

/-- **The reader yields the records of a file**, every one and in order. -/
theorem readBlocks_records {blocks : List XdmpBlock} {first : Nat}
    (hadmitted : ∀ b ∈ blocks, b.Admitted) (hheights : Consecutive first blocks)
    (hprev : state.prevHeight + 1 = first)
    (hat : At file state.pos (blocks.flatMap XdmpBlock.record)) :
    reader.readBlocks file blocks.length state = .ended blocks := by
  induction blocks generalizing first state with
  | nil => rfl
  | cons b rest ih =>
      obtain ⟨hheight, hrest⟩ := consecutive_cons.mp hheights
      obtain ⟨hb, hall⟩ := List.forall_mem_cons.mp hadmitted
      rw [List.flatMap_cons] at hat
      obtain ⟨dataBuf, hread⟩ := readBlock_record reader
        (reader.blockCount - (rest.length + 1)) hb hat (by omega)
      rw [List.length_cons, XdmpReader.readBlocks, hread]
      dsimp only
      rw [ih hall hrest (by simp only; omega) hat.skip, Generator.cons_ended]

/-- **A file that is cut makes the reader throw.** -/
theorem readBlocks_cut {blocks : List XdmpBlock} {first k : Nat}
    (hadmitted : ∀ b ∈ blocks, b.Admitted) (hheights : Consecutive first blocks)
    (hprev : state.prevHeight + 1 = first)
    (hcut : k < (blocks.flatMap XdmpBlock.record).length)
    (hat : At file state.pos ((blocks.flatMap XdmpBlock.record).take k)) :
    ∃ e, (reader.readBlocks file blocks.length state).thrown = some e := by
  induction blocks generalizing first state k with
  | nil => exact absurd hcut (Nat.not_lt_zero k)
  | cons b rest ih =>
      obtain ⟨hheight, hrest⟩ := consecutive_cons.mp hheights
      obtain ⟨hb, hall⟩ := List.forall_mem_cons.mp hadmitted
      rw [List.flatMap_cons] at hat hcut
      by_cases hshort : k < b.record.length
      · obtain ⟨e, hread⟩ := readBlock_cut reader (reader.blockCount - (rest.length + 1)) hb hshort
          hat
        rw [List.length_cons, XdmpReader.readBlocks, hread]
        exact ⟨e, rfl⟩
      · rw [List.take_append, List.take_of_length_le (Nat.le_of_not_lt hshort)] at hat
        rw [List.length_append] at hcut
        obtain ⟨dataBuf, hread⟩ := readBlock_record reader
          (reader.blockCount - (rest.length + 1)) hb hat (by omega)
        obtain ⟨next, hnext⟩ : ∃ next : ReadState,
            next = ⟨state.pos + b.record.length, b.height, dataBuf⟩ := ⟨_, rfl⟩
        have hprev' : next.prevHeight + 1 = ((first + 1 : Nat) : Int) := by
          rw [hnext]
          simp only
          omega
        have hat' : At file next.pos
            ((rest.flatMap XdmpBlock.record).take (k - b.record.length)) := by
          rw [hnext]
          exact hat.skip
        obtain ⟨e, hthrown⟩ := ih hall hrest hprev' (by omega) hat'
        rw [List.length_cons, XdmpReader.readBlocks, hread, ← hnext]
        exact ⟨e, hthrown⟩

/-! ### Whole files -/

/-- What a dump file stands for. -/
structure DumpedFile where
  header : HeaderFields
  blocks : List XdmpBlock
  deriving DecidableEq, Repr

namespace DumpedFile

def bytes (f : DumpedFile) : List UInt8 := f.header.bytes ++ f.blocks.flatMap XdmpBlock.record

/-- The header fits, and the blocks are those of its range. -/
structure WellFormed (f : DumpedFile) : Prop where
  fits : f.header.Fits
  length_eq : f.blocks.length = f.header.blockCount
  heights : Consecutive f.header.firstHeight f.blocks
  admitted : ∀ b ∈ f.blocks, b.Admitted

variable {f : DumpedFile} (filePath : String)

theorem WellFormed.readFile_eq (hwf : f.WellFormed) : readFile filePath f.bytes = .ended f.blocks := by
  have hat : At f.bytes HEADER_SIZE (f.blocks.flatMap XdmpBlock.record) :=
    ⟨f.header.bytes, rfl, f.header.length_bytes⟩
  have hcount : (f.header.reader filePath).blockCount = f.blocks.length := hwf.length_eq.symm
  rw [readFile, bytes, HeaderFields.construct_eq hwf.fits]
  dsimp only
  rw [XdmpReader.blocks, hcount]
  exact readBlocks_records hwf.admitted hwf.heights (Int.sub_add_cancel _ _) hat

/-- **No file that is cut reads as a shorter one.** -/
theorem WellFormed.readFile_cut (hwf : f.WellFormed) {k : Nat} (hcut : k < f.bytes.length) :
    ∃ e, (readFile filePath (f.bytes.take k)).thrown = some e := by
  have hheader := f.header.length_bytes
  by_cases hshort : k < 64
  · have hlength : (f.bytes.take k).length < 64 := by
      rw [List.length_take]
      omega
    obtain ⟨e, hconstruct⟩ := HeaderFields.construct_short filePath hlength
    rw [readFile, hconstruct]
    exact ⟨e, rfl⟩
  · have hsplit : f.bytes.take k =
        f.header.bytes ++ (f.blocks.flatMap XdmpBlock.record).take (k - 64) := by
      rw [bytes, List.take_append, hheader, List.take_of_length_le (by omega)]
    have hat : At (f.bytes.take k) HEADER_SIZE
        ((f.blocks.flatMap XdmpBlock.record).take (k - 64)) := ⟨_, hsplit, hheader⟩
    have hcount : (f.header.reader filePath).blockCount = f.blocks.length := hwf.length_eq.symm
    rw [bytes, List.length_append, hheader] at hcut
    rw [readFile, hsplit, HeaderFields.construct_eq hwf.fits, ← hsplit]
    dsimp only
    rw [XdmpReader.blocks, hcount]
    exact readBlocks_cut hwf.admitted hwf.heights (Int.sub_add_cancel _ _) (by omega) hat

end DumpedFile

end UtxoTracker.Xdmp

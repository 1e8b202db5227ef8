import UtxoTracker.Proof.MetaReader
import UtxoTracker.Safety.ConcatReuse
/-!
# The round trip of the block stream

Ranges of blocks written, concatenated and read back. A block whose record does not fit the reader's
scratch buffer shows zeros for its height, its timestamp and its hashes; every other block is read
back as it was written, and a stream that is cut is refused.
-/

namespace UtxoTracker.DatFiles

open ByteString Throwing ValueCodec
open Xdmp (ChainName NetworkName)

variable {chain : ChainName} {netName : NetworkName} {s : Disk} {paths : List String}
  {cap : Nat} {b : MetaBlock} {blocks : List MetaBlock}

/-! ### When every block is shown as it was written -/

/-- **No record is larger than the scratch buffer** as the records before it left it, unless its
height, its timestamp and its hashes are zero. -/
def FitsScratch : Nat → List MetaBlock → Prop
  | _, [] => True
  | cap, b :: rest => (b.size ≤ cap ∨ b.tuple = b.blanked) ∧ FitsScratch (grown cap b.size) rest

theorem shown_eq_tuple_iff : b.shown cap = b.tuple ↔ b.size ≤ cap ∨ b.tuple = b.blanked := by
  unfold MetaBlock.shown
  split_ifs with hlarge
  · constructor
    · intro hblanked
      exact .inr hblanked.symm
    · rintro (hfits | hblanked)
      · omega
      · exact hblanked.symm
  · exact iff_of_true rfl (.inl (by omega))

theorem shownBlocks_eq_iff :
    shownBlocks cap blocks = blocks.map MetaBlock.tuple ↔ FitsScratch cap blocks := by
  induction blocks generalizing cap with
  | nil => exact iff_of_true rfl trivial
  | cons b rest ih =>
      rw [shownBlocks, List.map_cons, List.cons.injEq, shown_eq_tuple_iff, ih]
      rfl

/-- For blocks with a hash the buffer never grows: each has at most 8189 transactions. -/
theorem fitsScratch_iff (hhash : ∀ b ∈ blocks, b.blockHash.toList ≠ alloc 32) :
    FitsScratch IO_CHUNK_BYTES blocks ↔ ∀ b ∈ blocks, b.txidList.length ≤ 8189 := by
  induction blocks with
  | nil => exact iff_of_true trivial fun _ hmem => absurd hmem List.not_mem_nil
  | cons b rest ih =>
      obtain ⟨hb, hrest⟩ := List.forall_mem_cons.mp hhash
      have hsize : b.size ≤ IO_CHUNK_BYTES ↔ b.txidList.length ≤ 8189 := by
        unfold MetaBlock.size recordSizeOf MIN_RECORD_SIZE META_TXID_SIZE IO_CHUNK_BYTES
        omega
      have hnot : b.tuple ≠ b.blanked := fun heq => hb (congrArg BlockTuple.blockHash heq)
      rw [FitsScratch, or_iff_left hnot, List.forall_mem_cons, hsize]
      apply and_congr_right
      intro hfits
      have hsame : grown IO_CHUNK_BYTES b.size = IO_CHUNK_BYTES :=
        if_neg (Nat.not_lt_of_le (hsize.mpr hfits))
      rw [hsame]
      exact ih hrest

/-! ### Ranges of blocks -/

structure BlockRange where
  firstHeight : Nat
  blocks : List MetaBlock

def BlockRange.lastHeight (r : BlockRange) : Nat := r.firstHeight + r.blocks.length - 1

/-- The heights from the first one on, and numbers that fit their fields. -/
structure BlockRange.WellFormed (r : BlockRange) : Prop where
  nonempty : r.blocks ≠ []
  heights : r.blocks.map MetaBlock.height =
    (List.range' r.firstHeight r.blocks.length).map fun height : Nat => (height : Int)
  timestamps : ∀ b ∈ r.blocks, 0 ≤ b.timestamp ∧ b.timestamp < 2 ^ 32
  txids : ∀ b ∈ r.blocks, b.txidList.length < 2 ^ 32

/-- Each range starts above the one before. -/
structure Contiguous (ranges : List BlockRange) : Prop where
  nonempty : ranges ≠ []
  wellFormed : ∀ r ∈ ranges, r.WellFormed
  follows : ranges.IsChain fun r next => next.firstHeight = r.lastHeight + 1

/-- The files of the ranges. -/
def RangesWritten (chain : ChainName) (netName : NetworkName) (s : Disk) (paths : List String)
    (ranges : List BlockRange) : Prop :=
  List.Forall₂ (fun path r => ∃ file, s.dir path = some file ∧
    metaFile chain netName r.firstHeight r.lastHeight r.blocks = .ok file) paths ranges

/-- A range as what a worker wrote of it. -/
def BlockRange.worker (r : BlockRange) : WorkerOutput :=
  { firstHeight := r.firstHeight
    lastHeight := r.lastHeight
    outputs := []
    spends := []
    blocks := r.blocks }

variable {r : BlockRange} {ranges : List BlockRange} {file : List UInt8} {files : List (List UInt8)}

/-- A range that was written fits the heights of a header. -/
theorem BlockRange.WellFormed.inRange (hwf : r.WellFormed) (hlast : r.lastHeight < 2 ^ 32) :
    ∀ b ∈ r.blocks, b.InRange := by
  intro b hmem
  have hheight : b.height ∈ r.blocks.map MetaBlock.height := List.mem_map_of_mem hmem
  rw [hwf.heights] at hheight
  obtain ⟨height, hrange, hcast⟩ := List.mem_map.mp hheight
  rw [List.mem_range'_1] at hrange
  obtain ⟨htime, htime'⟩ := hwf.timestamps b hmem
  unfold BlockRange.lastHeight at hlast
  exact ⟨by omega, by omega, htime, htime', hwf.txids b hmem⟩

/-- A file with the blocks of a range. -/
def HoldsRange (chain : ChainName) (netName : NetworkName) (r : BlockRange) (file : List UInt8) : Prop :=
  StreamFile (Stream.blocks.header chain netName r.worker) (r.blocks.flatMap MetaBlock.record) file

theorem holdsRange (hfile : metaFile chain netName r.firstHeight r.lastHeight r.blocks = .ok file) :
    HoldsRange chain netName r file :=
  metaFile_ok (h := Stream.blocks.header chain netName r.worker) rfl rfl rfl hfile

theorem RangesWritten.contents (hwritten : RangesWritten chain netName s paths ranges) :
    ∃ files, Holds s paths files ∧ List.Forall₂ (HoldsRange chain netName) ranges files := by
  induction hwritten with
  | nil => exact ⟨[], .nil, .nil⟩
  | cons hfile _ ih =>
      obtain ⟨file, hfile, hrange⟩ := hfile
      obtain ⟨files, hholds, hranges⟩ := ih
      exact ⟨file :: files, .cons hfile hholds, .cons (holdsRange hrange) hranges⟩

theorem made_of_holdsRange (hwf : ∀ r ∈ ranges, r.WellFormed)
    (hholds : List.Forall₂ (HoldsRange chain netName) ranges files) :
    List.Forall₂ (Stream.blocks.Made chain netName) (ranges.map BlockRange.worker) files := by
  induction hholds with
  | nil => exact .nil
  | @cons r file ranges files hrange _ ih =>
      obtain ⟨hr, hrest⟩ := List.forall_mem_cons.mp hwf
      refine .cons ⟨_, hrange, ?_⟩ (ih hrest)
      intro hzero
      exact absurd (List.eq_nil_of_length_eq_zero hzero) hr.nonempty

theorem flatMap_bodies (hholds : List.Forall₂ (HoldsRange chain netName) ranges files) :
    (files.flatMap fun file => file.drop HEADER_SIZE) =
      (ranges.flatMap BlockRange.blocks).flatMap MetaBlock.record := by
  induction hholds with
  | nil => rfl
  | @cons r file ranges files hrange _ ih =>
      rw [List.flatMap_cons, List.flatMap_cons, List.flatMap_append, ih, hrange.eq,
        hrange.fits.drop_header]

/-- The ranges hold no more blocks than there are heights. -/
theorem Contiguous.count_lt (hcontiguous : Contiguous ranges)
    (hlast : ∀ r ∈ ranges, r.lastHeight < 2 ^ 32) :
    (ranges.flatMap BlockRange.blocks).length ≤ 2 ^ 32 := by
  obtain ⟨hne, hwf, hfollows⟩ := hcontiguous
  obtain ⟨first, rest, rfl⟩ := List.exists_cons_of_ne_nil hne
  have hbelow : first.firstHeight + ((first :: rest).flatMap BlockRange.blocks).length ≤ 2 ^ 32 := by
    clear hne
    induction rest generalizing first with
    | nil =>
        have hone := hlast first List.mem_cons_self
        unfold BlockRange.lastHeight at hone
        rw [List.flatMap_cons, List.flatMap_nil, List.append_nil]
        omega
    | cons next rest ih =>
        obtain ⟨hnext, hchain⟩ := List.isChain_cons_cons.mp hfollows
        have hpos := List.length_pos_of_ne_nil (hwf first List.mem_cons_self).nonempty
        have hrest := ih next (fun r hmem => hlast r (List.mem_cons_of_mem _ hmem))
          (fun r hmem => hwf r (List.mem_cons_of_mem _ hmem)) hchain
        unfold BlockRange.lastHeight at hnext
        rw [List.flatMap_cons, List.length_append]
        omega
  omega

theorem lastHeight_lt_of_holds (hholds : List.Forall₂ (HoldsRange chain netName) ranges files) :
    ∀ r ∈ ranges, r.lastHeight < 2 ^ 32 := by
  intro r hmem
  obtain ⟨file, -, hrange⟩ := exists_of_mem_right hholds.flip hmem
  exact hrange.fits.last_lt

/-- The files of contiguous ranges can be joined, and their counts fit. -/
theorem Contiguous.joins (hcontiguous : Contiguous ranges)
    (hholds : List.Forall₂ (HoldsRange chain netName) ranges files) :
    Joinable HEADER_SIZE files ∧ totalRecordCount HEADER_SIZE files =
      (ranges.flatMap BlockRange.blocks).length ∧ totalRecordCount HEADER_SIZE files ≤ 2 ^ 32 := by
  have hcount := hcontiguous.count_lt (lastHeight_lt_of_holds hholds)
  obtain ⟨hne, hwf, hfollows⟩ := hcontiguous
  have hreads : List.Forall₂ (Stream.blocks.Reads chain netName) (ranges.map BlockRange.worker)
      files := (made_of_holdsRange hwf hholds).imp fun _ _ => Stream.Made.reads
  have hchain : (ranges.map BlockRange.worker).IsChain fun w next =>
      next.firstHeight = w.lastHeight + 1 := (List.isChain_map BlockRange.worker).mpr hfollows
  have htotal : totalRecordCount HEADER_SIZE files = (ranges.flatMap BlockRange.blocks).length := by
    rw [Stream.totalRecordCount_eq hreads, List.map_map, List.length_flatMap]
    rfl
  exact ⟨Stream.joinable (mt List.map_eq_nil_iff.mp hne) hchain hreads, htotal, htotal ▸ hcount⟩

/-- **What the concatenation holds**: all the ranges' blocks behind one header that counts them. -/
theorem Contiguous.concatenation_eq (hcontiguous : Contiguous ranges)
    (hholds : List.Forall₂ (HoldsRange chain netName) ranges files) :
    ∃ h : StreamHeader, h.magic = MAGIC_META ∧
      h.recordCount = (ranges.flatMap BlockRange.blocks).length ∧
      StreamFile h ((ranges.flatMap BlockRange.blocks).flatMap MetaBlock.record)
        (concatenation HEADER_SIZE files) := by
  obtain ⟨-, htotal, hle⟩ := hcontiguous.joins hholds
  have hmade := made_of_holdsRange hcontiguous.wellFormed hholds
  obtain ⟨first, rest, rfl⟩ := List.exists_cons_of_ne_nil hcontiguous.nonempty
  have hstream := Stream.concatenation_eq hmade (Nat.lt_of_le_of_lt hle (by decide))
  rw [flatMap_bodies hholds] at hstream
  exact ⟨_, rfl, htotal, hstream⟩

theorem Contiguous.inRange (hcontiguous : Contiguous ranges)
    (hholds : List.Forall₂ (HoldsRange chain netName) ranges files) :
    ∀ b ∈ ranges.flatMap BlockRange.blocks, b.InRange := by
  intro b hmem
  obtain ⟨r, hr, hb⟩ := List.mem_flatMap.mp hmem
  exact (hcontiguous.wellFormed r hr).inRange (lastHeight_lt_of_holds hholds r hr) b hb

/-! ### Written, concatenated, read back -/

/-- The blocks come back as they were written, and no cut of the file reads as a shorter stream. -/
structure RoundTrips (blocks : List MetaBlock) (filePath : String) (file : List UInt8) : Prop where
  same : readMetaFile filePath file = .ended (blocks.map MetaBlock.tuple)
  cut : ∀ k, HEADER_SIZE ≤ k → k < file.length →
    ∃ e, (readMetaFile filePath (file.take k)).thrown = some e

/-- **The round trip** holds exactly when every block fits the scratch buffer; a cut file is refused
either way. -/
theorem meta_round_trip_iff (faults : Faults) (chain : ChainName) (netName : NetworkName)
    (ranges : List BlockRange) (hcontiguous : Contiguous ranges) (s : Disk) (paths : List String)
    (outputPath : String) (htmp : tmpOf outputPath ∉ paths)
    (hwritten : RangesWritten chain netName s paths ranges) :
    Ensures (concatFilesWithHeader faults wholeWrites paths outputPath HEADER_SIZE) s
      (fun _ s' => ∃ file, s'.dir outputPath = some file ∧
        (RoundTrips (ranges.flatMap BlockRange.blocks) outputPath file ↔
          FitsScratch IO_CHUNK_BYTES (ranges.flatMap BlockRange.blocks)) ∧
        ∀ k, HEADER_SIZE ≤ k → k < file.length →
          ∃ e, (readMetaFile outputPath (file.take k)).thrown = some e)
      (fun _ _ => ¬faults.Quiet) := by
  obtain ⟨files, hholds, hranges⟩ := hwritten.contents
  obtain ⟨hjoinable, htotal, hle⟩ := hcontiguous.joins hranges
  obtain ⟨h, hmagic, hcount, hstream⟩ := hcontiguous.concatenation_eq hranges
  have hinRange := hcontiguous.inRange hranges
  apply (concatFilesWithHeader_wholeWrites (by decide) htmp).mono
  · rintro n s' ⟨files', hdone⟩
    obtain rfl := hholds.unique hdone.read
    have hcut : ∀ k, HEADER_SIZE ≤ k → k < (concatenation HEADER_SIZE files).length →
        ∃ e, (readMetaFile outputPath ((concatenation HEADER_SIZE files).take k)).thrown = some e :=
      fun k hk => readMetaFile_cut hmagic hcount hinRange hstream outputPath hk
    refine ⟨_, hdone.output, ?_, hcut⟩
    have hread := readMetaFile_eq hmagic hcount hinRange hstream outputPath
    rw [← shownBlocks_eq_iff]
    constructor
    · intro hround
      have hsame := hround.same
      rw [hread] at hsame
      exact congrArg Generator.yielded hsame
    · intro hshown
      exact ⟨by rw [hread, hshown], hcut⟩
  · rintro e s' ⟨-, hrefused⟩ hquiet
    exact hrefused hquiet ⟨files, hholds, hjoinable, Nat.lt_of_le_of_lt hle (by decide)⟩

/-! ### One block of many transactions -/

/-- Block 1 with its transactions, as a range of its own. -/
def blockOf (txCount : Nat) : BlockRange where
  firstHeight := 1
  blocks := [⟨1, 0, .replicate 32 1, .replicate 32 0, .replicate txCount (.replicate 32 0)⟩]

theorem contiguous_blockOf {txCount : Nat} (hcount : txCount < 2 ^ 32) :
    Contiguous [blockOf txCount] where
  nonempty := List.cons_ne_nil _ _
  wellFormed r hmem := by
    rw [List.mem_singleton.mp hmem]
    refine ⟨List.cons_ne_nil _ _, rfl, ?_, ?_⟩
    · intro b hb
      rw [List.mem_singleton.mp hb]
      exact ⟨le_refl _, show (0 : Int) < 2 ^ 32 by decide⟩
    · intro b hb
      rw [List.mem_singleton.mp hb]
      exact List.length_replicate.symm ▸ hcount
  follows := .singleton _

/-- The directory with the file of that range. -/
theorem exists_written_blockOf (txCount : Nat) :
    ∃ s, RangesWritten .bitcoin .regtest s ["meta.dat"] [blockOf txCount] := by
  obtain ⟨file, hfile⟩ := exists_metaFile
    (h := Stream.blocks.header .bitcoin .regtest (blockOf txCount).worker) rfl rfl
    ⟨rfl, show 1 < 2 ^ 32 by decide, show 1 < 2 ^ 32 by decide, show 1 < 2 ^ 64 by decide,
      show 0 < 2 ^ 32 by decide⟩ rfl
  exact ⟨⟨fun path => if path = "meta.dat" then some file else none, 0, 0⟩,
    .cons ⟨file, rfl, hfile⟩ .nil⟩

theorem fitsScratch_blockOf_iff (txCount : Nat) :
    FitsScratch IO_CHUNK_BYTES ([blockOf txCount].flatMap BlockRange.blocks) ↔ txCount ≤ 8189 := by
  have hblocks : [blockOf txCount].flatMap BlockRange.blocks =
      [⟨1, 0, .replicate 32 1, .replicate 32 0, .replicate txCount (.replicate 32 0)⟩] := rfl
  have hones : (Vector.replicate 32 1 : Vector UInt8 32).toList ≠ alloc 32 := by decide
  have hhash : ∀ b ∈ [blockOf txCount].flatMap BlockRange.blocks, b.blockHash.toList ≠ alloc 32 := by
    intro b hmem
    rw [hblocks] at hmem
    rw [List.mem_singleton.mp hmem]
    exact hones
  rw [fitsScratch_iff hhash, hblocks, List.forall_mem_singleton, List.length_replicate]

theorem meta_round_trip_iff_small :
    ∃ s, RangesWritten .bitcoin .regtest s ["meta.dat"] [blockOf 2] ∧
      Ensures (concatFilesWithHeader noFaults wholeWrites ["meta.dat"] "all-meta.dat" HEADER_SIZE) s
        (fun _ s' => ∃ file, s'.dir "all-meta.dat" = some file ∧
          RoundTrips ([blockOf 2].flatMap BlockRange.blocks) "all-meta.dat" file)
        (fun _ _ => ¬noFaults.Quiet) := by
  obtain ⟨s, hwritten⟩ := exists_written_blockOf 2
  have hround := meta_round_trip_iff noFaults .bitcoin .regtest [blockOf 2]
    (contiguous_blockOf (by decide)) s ["meta.dat"] "all-meta.dat" (by decide) hwritten
  refine ⟨s, hwritten, hround.mono ?_ fun _ _ hthrows => hthrows⟩
  rintro n s' ⟨file, hfile, hiff, -⟩
  exact ⟨file, hfile, hiff.mpr ((fitsScratch_blockOf_iff 2).mpr (by decide))⟩

/-- A block of 8190 transactions does not come back. -/
theorem large_block_not_round_tripped :
    ∃ s s' n file, RangesWritten .bitcoin .regtest s ["meta.dat"] [blockOf 8190] ∧
      concatFilesWithHeader noFaults wholeWrites ["meta.dat"] "all-meta.dat" HEADER_SIZE s = .ok n s' ∧
      s'.dir "all-meta.dat" = some file ∧
      readMetaFile "all-meta.dat" file ≠
        .ended (([blockOf 8190].flatMap BlockRange.blocks).map MetaBlock.tuple) := by
  obtain ⟨s, hwritten⟩ := exists_written_blockOf 8190
  obtain ⟨files, hholds, hranges⟩ := hwritten.contents
  have hcontiguous := contiguous_blockOf (show 8190 < 2 ^ 32 by decide)
  obtain ⟨hjoinable, -, hle⟩ := hcontiguous.joins hranges
  have houtcome : Ensures (concatFilesWithHeader noFaults wholeWrites ["meta.dat"] "all-meta.dat"
    HEADER_SIZE) s _ _ := concatFilesWithHeader_wholeWrites (by decide) (by decide)
  have hsucceeds := houtcome.succeeds fun e s' hthrown =>
    hthrown.2 noFaults_quiet ⟨files, hholds, hjoinable, Nat.lt_of_le_of_lt hle (by decide)⟩
  obtain ⟨n, s', hrun⟩ := hsucceeds
  unfold Ensures at houtcome
  rw [hrun] at houtcome
  obtain ⟨files', hdone⟩ := houtcome
  obtain rfl := hholds.unique hdone.read
  refine ⟨s, s', n, _, hwritten, hrun, hdone.output, ?_⟩
  obtain ⟨h, hmagic, hcount, hstream⟩ := hcontiguous.concatenation_eq hranges
  rw [readMetaFile_eq hmagic hcount (hcontiguous.inRange hranges) hstream]
  intro hsame
  have hfits := (shownBlocks_eq_iff.mp (congrArg Generator.yielded hsame))
  exact absurd ((fitsScratch_blockOf_iff 8190).mp hfits) (by decide)

end UtxoTracker.DatFiles

import UtxoTracker.Bulk.RecordFiles
import UtxoTracker.Lib.AntiJoin
/-!
# Record files

A file of fixed-size records behind a header, and what the join and the sort of such files come to
on the records.
-/

namespace UtxoTracker.Bulk

open Chunks ExternalSort RecordBuffer

/-- A file that is a header and whole records. -/
structure RecordFile (headerSize recordSize : Nat) where
  header : List UInt8
  records : List (List UInt8)
  header_length : header.length = headerSize
  record_length : ∀ record ∈ records, record.length = recordSize

namespace RecordFile

variable {headerSize recordSize : Nat}

def bytes (f : RecordFile headerSize recordSize) : List UInt8 := f.header ++ f.records.flatten

variable (f : RecordFile headerSize recordSize)

theorem length_bytes : f.bytes.length = headerSize + f.records.length * recordSize := by
  rw [bytes, List.length_append, f.header_length, length_flatten_of_mem f.record_length]

theorem drop_bytes : f.bytes.drop headerSize = f.records.flatten := by
  rw [bytes, List.drop_left' f.header_length]

theorem take_bytes : f.bytes.take headerSize = f.header := by
  rw [bytes, List.take_left' f.header_length]

theorem not_truncated : ¬(f.bytes.length < headerSize ∨
    (f.bytes.length - headerSize) % recordSize ≠ 0) := by
  rw [f.length_bytes, Nat.add_sub_cancel_left, Nat.mul_mod_left]
  omega

end RecordFile

/-! ### The join -/

/-- What the join adds to the output file and to the counts. -/
structure Joined (keySize : Nat) (left right : List (List UInt8)) (out out' : RecordWriter UInt8)
    (stats stats' : JoinStats) : Prop where
  room : out'.HasRoom
  contents : out'.contents = out.contents ++
    (AntiJoin.joinRecords (recordKey keySize) (recordKey keySize) left right).emitted.flatten
  leftRead : stats'.leftRead = stats.leftRead + left.tail.length
  rightRead : stats'.rightRead = stats.rightRead + right.tail.length
  emitted : stats'.emitted = stats.emitted +
    (AntiJoin.joinRecords (recordKey keySize) (recordKey keySize) left right).emitted.length
  canceled : stats'.canceled +
    (AntiJoin.joinRecords (recordKey keySize) (recordKey keySize) left right).emitted.length =
      stats.canceled + left.length
  orphanSpends : stats'.orphanSpends = stats.orphanSpends +
    (AntiJoin.joinRecords (recordKey keySize) (recordKey keySize) left right).orphanSpends

section CountLeft

variable (stats : JoinStats) (curr : Option Nat)

@[simp] theorem countLeft_rightRead : (stats.countLeft curr).rightRead = stats.rightRead := by
  unfold JoinStats.countLeft
  split <;> rfl

@[simp] theorem countLeft_emitted : (stats.countLeft curr).emitted = stats.emitted := by
  unfold JoinStats.countLeft
  split <;> rfl

@[simp] theorem countLeft_canceled : (stats.countLeft curr).canceled = stats.canceled := by
  unfold JoinStats.countLeft
  split <;> rfl

@[simp] theorem countLeft_orphanSpends :
    (stats.countLeft curr).orphanSpends = stats.orphanSpends := by
  unfold JoinStats.countLeft
  split <;> rfl

@[simp] theorem countRight_leftRead : (stats.countRight curr).leftRead = stats.leftRead := by
  unfold JoinStats.countRight
  split <;> rfl

@[simp] theorem countRight_emitted : (stats.countRight curr).emitted = stats.emitted := by
  unfold JoinStats.countRight
  split <;> rfl

@[simp] theorem countRight_canceled : (stats.countRight curr).canceled = stats.canceled := by
  unfold JoinStats.countRight
  split <;> rfl

@[simp] theorem countRight_orphanSpends :
    (stats.countRight curr).orphanSpends = stats.orphanSpends := by
  unfold JoinStats.countRight
  split <;> rfl

end CountLeft

/-- A record that is shown has been counted, the others have not. -/
theorem countLeft_leftRead {r : RecordReader UInt8} {curr : Option Nat}
    {rest : List (List UInt8)} (hshowing : r.Showing curr rest) (stats : JoinStats) :
    (stats.countLeft curr).leftRead + rest.tail.length = stats.leftRead + rest.length := by
  cases hshowing with
  | done => rfl
  | record => simp [JoinStats.countLeft]; omega

theorem countRight_rightRead {r : RecordReader UInt8} {curr : Option Nat}
    {rest : List (List UInt8)} (hshowing : r.Showing curr rest) (stats : JoinStats) :
    (stats.countRight curr).rightRead + rest.tail.length = stats.rightRead + rest.length := by
  cases hshowing with
  | done => rfl
  | record => simp [JoinStats.countRight]; omega

section Rounds

variable {keySize : Nat} {left right : List (List UInt8)} {record : List UInt8}
  {out out' : RecordWriter UInt8} {stats stats' : JoinStats} {r : RecordReader UInt8}
  {curr : Option Nat}

/-- A round that writes the left record. -/
theorem Joined.emit (hroom : out.HasRoom) (hlength : record.length = out.recordSize)
    (hjoin : AntiJoin.joinRecords (recordKey keySize) (recordKey keySize) (record :: left) right =
      ⟨record :: (AntiJoin.joinRecords (recordKey keySize) (recordKey keySize) left right).emitted,
        (AntiJoin.joinRecords (recordKey keySize) (recordKey keySize) left right).orphanSpends⟩)
    (hnext : r.Showing curr left)
    (hjoined : Joined keySize left right (out.writeRecord record) out'
      ({ stats with emitted := stats.emitted + 1 }.countLeft curr) stats') :
    Joined keySize (record :: left) right out out' stats stats' := by
  have hcount := countLeft_leftRead hnext { stats with emitted := stats.emitted + 1 }
  have hleftRead := hjoined.leftRead
  have hrightRead := hjoined.rightRead
  have hemitted := hjoined.emitted
  have hcanceled := hjoined.canceled
  have horphans := hjoined.orphanSpends
  simp only [countLeft_rightRead, countLeft_emitted, countLeft_canceled,
    countLeft_orphanSpends] at hcount hrightRead hemitted hcanceled horphans
  refine ⟨hjoined.room, ?_, ?_, hrightRead, ?_, ?_, ?_⟩
  · rw [hjoin, hjoined.contents, (hroom.writeRecord hlength).2.1, List.flatten_cons,
      List.append_assoc]
  · rw [List.tail_cons]
    omega
  · rw [hjoin, List.length_cons]
    omega
  · rw [hjoin, List.length_cons, List.length_cons]
    omega
  · rw [hjoin]
    exact horphans

/-- A round that passes over a right record without a partner. -/
theorem Joined.orphan
    (hjoin : AntiJoin.joinRecords (recordKey keySize) (recordKey keySize) left (record :: right) =
      ⟨(AntiJoin.joinRecords (recordKey keySize) (recordKey keySize) left right).emitted,
        (AntiJoin.joinRecords (recordKey keySize) (recordKey keySize) left right).orphanSpends + 1⟩)
    (hnext : r.Showing curr right)
    (hjoined : Joined keySize left right out out'
      ({ stats with orphanSpends := stats.orphanSpends + 1 }.countRight curr) stats') :
    Joined keySize left (record :: right) out out' stats stats' := by
  have hcount := countRight_rightRead hnext { stats with orphanSpends := stats.orphanSpends + 1 }
  have hleftRead := hjoined.leftRead
  have hrightRead := hjoined.rightRead
  have hemitted := hjoined.emitted
  have hcanceled := hjoined.canceled
  have horphans := hjoined.orphanSpends
  simp only [countRight_leftRead, countRight_emitted, countRight_canceled,
    countRight_orphanSpends] at hcount hleftRead hemitted hcanceled horphans
  refine ⟨hjoined.room, ?_, hleftRead, ?_, ?_, ?_, ?_⟩
  · rw [hjoin, hjoined.contents]
  · rw [List.tail_cons]
    omega
  · rw [hjoin]
    exact hemitted
  · rw [hjoin]
    exact hcanceled
  · rw [hjoin]
    dsimp only
    omega

/-- A round that cancels a record on either side. -/
theorem Joined.cancel {left' right' : RecordReader UInt8} {leftRecord rightRecord : List UInt8}
    {leftCurr rightCurr : Option Nat}
    (hjoin : AntiJoin.joinRecords (recordKey keySize) (recordKey keySize) (leftRecord :: left)
      (rightRecord :: right) =
        AntiJoin.joinRecords (recordKey keySize) (recordKey keySize) left right)
    (hleft : left'.Showing leftCurr left) (hright : right'.Showing rightCurr right)
    (hjoined : Joined keySize left right out out'
      (({ stats with canceled := stats.canceled + 1 }.countLeft leftCurr).countRight rightCurr)
      stats') :
    Joined keySize (leftRecord :: left) (rightRecord :: right) out out' stats stats' := by
  have hcount := countLeft_leftRead hleft { stats with canceled := stats.canceled + 1 }
  have hcount' := countRight_rightRead hright
    ({ stats with canceled := stats.canceled + 1 }.countLeft leftCurr)
  have hleftRead := hjoined.leftRead
  have hrightRead := hjoined.rightRead
  have hemitted := hjoined.emitted
  have hcanceled := hjoined.canceled
  have horphans := hjoined.orphanSpends
  simp only [countLeft_rightRead, countLeft_emitted, countLeft_canceled, countLeft_orphanSpends,
    countRight_leftRead, countRight_emitted, countRight_canceled, countRight_orphanSpends]
    at hcount hcount' hleftRead hrightRead hemitted hcanceled horphans
  refine ⟨hjoined.room, ?_, ?_, ?_, ?_, ?_, ?_⟩
  · rw [hjoin, hjoined.contents]
  · rw [List.tail_cons]
    omega
  · rw [List.tail_cons]
    omega
  · rw [hjoin]
    exact hemitted
  · rw [hjoin, List.length_cons]
    omega
  · rw [hjoin]
    exact horphans

end Rounds

/-- **The loops of `joinRecords`** join the records that the readers have left. -/
theorem joinLoop_spec (keySize : Nat) (left right : RecordReader UInt8)
    (leftCurr rightCurr : Option Nat) (out : RecordWriter UInt8) (stats : JoinStats)
    {leftRecords rightRecords : List (List UInt8)} (hleft : left.Showing leftCurr leftRecords)
    (hright : right.Showing rightCurr rightRecords) (hroom : out.HasRoom)
    (hlength : ∀ record ∈ leftRecords, record.length = out.recordSize) :
    Joined keySize leftRecords rightRecords out
      (joinLoop keySize left right leftCurr rightCurr out stats).1 stats
      (joinLoop keySize left right leftCurr rightCurr out stats).2 := by
  induction left, right, leftCurr, rightCurr, out, stats using joinLoop.induct keySize
    generalizing leftRecords rightRecords with
  | case1 left right out stats =>
      cases hleft
      cases hright
      rw [joinLoop]
      refine ⟨hroom, ?_, ?_, ?_, ?_, ?_, ?_⟩ <;> simp [AntiJoin.joinRecords]
  | case2 left right out stats r ih =>
      cases hleft
      obtain ⟨rest, rfl, haligned, hpending, hrecord, hview⟩ := hright.of_some
      have hnext := (RecordReader.showing_next haligned hpending hrecord).1
      rw [joinLoop]
      refine Joined.orphan ?_ hnext (ih .done hnext hroom hlength)
      rw [AntiJoin.joinRecords, AntiJoin.joinRecords, List.length_cons]
  | case3 left right out stats l ih =>
      obtain ⟨rest, rfl, haligned, hpending, hrecord, hview⟩ := hleft.of_some
      cases hright
      have hnext := (RecordReader.showing_next haligned hpending hrecord).1
      have hcopied := hlength _ List.mem_cons_self
      obtain ⟨hroom', -, hsize⟩ := hroom.writeRecord hcopied
      rw [joinLoop]
      refine Joined.emit hroom hcopied ?_ hnext (ih hnext .done hroom' fun other hmem => ?_)
      · cases rest with
        | nil => simp [AntiJoin.joinRecords]
        | cons => simp [AntiJoin.joinRecords]
      · rw [hsize]
        exact hlength other (List.mem_cons_of_mem _ hmem)
  | case4 left right out stats l r hlt ih =>
      obtain ⟨rest, rfl, haligned, hpending, hrecord, hview⟩ := hleft.of_some
      obtain ⟨rest', rfl, haligned', hpending', hrecord', hview'⟩ := hright.of_some
      have hnext := (RecordReader.showing_next haligned hpending hrecord).1
      have hcopied := hlength _ List.mem_cons_self
      obtain ⟨hroom', -, hsize⟩ := hroom.writeRecord hcopied
      rw [joinLoop, if_pos hlt]
      refine Joined.emit hroom hcopied ?_ hnext
        (ih hnext (.record haligned' hpending' hrecord' hview') hroom' fun other hmem => ?_)
      · rw [AntiJoin.joinRecords, if_pos hlt]
      · rw [hsize]
        exact hlength other (List.mem_cons_of_mem _ hmem)
  | case5 left right out stats l r hnlt hlt ih =>
      obtain ⟨rest, rfl, haligned, hpending, hrecord, hview⟩ := hleft.of_some
      obtain ⟨rest', rfl, haligned', hpending', hrecord', hview'⟩ := hright.of_some
      have hnext := (RecordReader.showing_next haligned' hpending' hrecord').1
      rw [joinLoop, if_neg hnlt, if_pos hlt]
      refine Joined.orphan ?_ hnext (ih (.record haligned hpending hrecord hview) hnext hroom hlength)
      rw [AntiJoin.joinRecords, if_neg hnlt, if_pos hlt]
  | case6 left right out stats l r hnlt hnlt' ih =>
      obtain ⟨rest, rfl, haligned, hpending, hrecord, hview⟩ := hleft.of_some
      obtain ⟨rest', rfl, haligned', hpending', hrecord', hview'⟩ := hright.of_some
      have hnext := (RecordReader.showing_next haligned hpending hrecord).1
      have hnext' := (RecordReader.showing_next haligned' hpending' hrecord').1
      rw [joinLoop, if_neg hnlt, if_neg hnlt']
      refine Joined.cancel ?_ hnext hnext' (ih hnext hnext' hroom fun other hmem =>
        hlength other (List.mem_cons_of_mem _ hmem))
      rw [AntiJoin.joinRecords, if_neg hnlt, if_neg hnlt']

theorem openReader_bytes {headerSize recordSize : Nat} (filePath : String)
    (f : RecordFile headerSize recordSize) (hsize : 0 < recordSize) :
    openReader filePath f.bytes headerSize recordSize hsize =
      .ok (.ofFile ioChunkBytes f.bytes headerSize recordSize hsize) := by
  rw [openReader, if_neg f.not_truncated]

/-- A reader opened on a file shows the first of its records. -/
theorem showing_open {headerSize recordSize : Nat} (f : RecordFile headerSize recordSize)
    (hsize : 0 < recordSize) :
    let r := RecordReader.ofFile ioChunkBytes f.bytes headerSize recordSize hsize
    r.next.2.Showing r.next.1 f.records := by
  refine (RecordReader.showing_next (RecordReader.aligned_ofFile hsize ?_) ?_ f.record_length).1
  · rw [f.length_bytes, Nat.add_sub_cancel_left]
    exact Nat.dvd_mul_left _ _
  · rw [RecordReader.pending_ofFile, f.drop_bytes]

/-- The output behind its header, before the first record. -/
theorem header_written (o : JoinOptions) (f : RecordFile o.leftHeaderSize o.leftRecordSize)
    (hsize : 0 < o.leftRecordSize) :
    let out := if o.copyLeftHeader ∧ 0 < o.leftHeaderSize then
        (RecordWriter.ofSize ioChunkBytes o.leftRecordSize).writeRaw (f.bytes.take o.leftHeaderSize)
      else .ofSize ioChunkBytes o.leftRecordSize
    out.HasRoom ∧ out.contents = (if o.copyLeftHeader then f.header else []) ∧
      out.recordSize = o.leftRecordSize := by
  have hroom := RecordWriter.hasRoom_ofSize (α := UInt8) ioChunkBytes hsize
  obtain ⟨hroom', hcontents, hrecord⟩ := hroom.writeRaw (f.bytes.take o.leftHeaderSize)
  rw [RecordWriter.contents_ofSize, List.nil_append] at hcontents
  intro out
  by_cases hcopy : o.copyLeftHeader ∧ 0 < o.leftHeaderSize
  · simp only [out, if_pos hcopy]
    refine ⟨hroom', ?_, hrecord⟩
    rw [hcontents, f.take_bytes, if_pos hcopy.1]
  · simp only [out, if_neg hcopy]
    refine ⟨hroom, ?_, rfl⟩
    rw [RecordWriter.contents_ofSize]
    split
    · rename_i hset
      have hzero : o.leftHeaderSize = 0 := by
        by_contra hpos
        exact hcopy ⟨hset, Nat.pos_of_ne_zero hpos⟩
      exact (List.length_eq_zero_iff.mp (f.header_length.trans hzero)).symm
    · rfl

/-- **`leftAntiJoin` on the bytes of two files** is the join of their records. -/
theorem leftAntiJoin_eq (o : JoinOptions)
    (left : RecordFile o.leftHeaderSize o.leftRecordSize)
    (right : RecordFile o.rightHeaderSize o.rightRecordSize)
    (hleft : o.left = left.bytes) (hright : o.right = right.bytes) (hkey : 0 < o.keySize)
    (hleftKey : o.keySize ≤ o.leftRecordSize) (hrightKey : o.keySize ≤ o.rightRecordSize) :
    ∃ stats : JoinStats,
      let joined := AntiJoin.joinRecords (recordKey o.keySize) (recordKey o.keySize)
        left.records right.records
      leftAntiJoin o = .ok ((if o.copyLeftHeader then left.header else []) ++
        joined.emitted.flatten, stats) ∧
      stats.leftRead = left.records.length ∧ stats.rightRead = right.records.length ∧
      stats.emitted = joined.emitted.length ∧
      stats.canceled + joined.emitted.length = left.records.length ∧
      stats.orphanSpends = joined.orphanSpends := by
  have hleftSize : 0 < o.leftRecordSize := by omega
  have hrightSize : 0 < o.rightRecordSize := by omega
  have hshowLeft := showing_open left hleftSize
  have hshowRight := showing_open right hrightSize
  have hcountLeft := countLeft_leftRead hshowLeft
    { leftRead := 0, rightRead := 0, emitted := 0, canceled := 0, orphanSpends := 0 }
  have hcountRight := countRight_rightRead hshowRight
    (({ leftRead := 0, rightRead := 0, emitted := 0, canceled := 0, orphanSpends := 0 } :
      JoinStats).countLeft (RecordReader.ofFile ioChunkBytes left.bytes o.leftHeaderSize
        o.leftRecordSize hleftSize).next.1)
  obtain ⟨hroom, hheader, hrecord⟩ := header_written o left hleftSize
  have hjoined := joinLoop_spec o.keySize _ _ _ _ _
    ((({ leftRead := 0, rightRead := 0, emitted := 0, canceled := 0, orphanSpends := 0 } :
      JoinStats).countLeft (RecordReader.ofFile ioChunkBytes left.bytes o.leftHeaderSize
        o.leftRecordSize hleftSize).next.1).countRight (RecordReader.ofFile ioChunkBytes
          right.bytes o.rightHeaderSize o.rightRecordSize hrightSize).next.1)
    hshowLeft hshowRight hroom fun record hmem => by
      rw [hrecord]
      exact left.record_length record hmem
  have hleftRead := hjoined.leftRead
  have hrightRead := hjoined.rightRead
  have hemitted := hjoined.emitted
  have hcanceled := hjoined.canceled
  have horphans := hjoined.orphanSpends
  simp only [countLeft_rightRead, countLeft_emitted, countLeft_canceled, countLeft_orphanSpends,
    countRight_leftRead, countRight_emitted, countRight_canceled, countRight_orphanSpends]
    at hcountLeft hcountRight hleftRead hrightRead hemitted hcanceled horphans
  refine ⟨_, ?_, hleftRead.trans (by omega), hrightRead.trans (by omega),
    hemitted.trans (by omega), hcanceled.trans (by omega), horphans.trans (by omega)⟩
  have hcontents := hjoined.contents
  rw [hheader] at hcontents
  rw [leftAntiJoin, dif_neg hkey.ne', dif_neg (by omega), ← hcontents]
  simp only [hleft, hright, openReader_bytes, ← RecordWriter.written_flush]
  rfl

/-! ### The sort -/

section Writing

variable {recordSize : Nat} {records : List (List UInt8)}

theorem foldl_writeRecord {w : RecordWriter UInt8} (hroom : w.HasRoom)
    (hlength : ∀ record ∈ records, record.length = w.recordSize) :
    (records.foldl RecordWriter.writeRecord w).contents = w.contents ++ records.flatten := by
  induction records generalizing w with
  | nil => simp
  | cons record records ih =>
      obtain ⟨hroom', hcontents, hsize⟩ := hroom.writeRecord (hlength record List.mem_cons_self)
      have hrest := ih hroom' fun other hmem => by
        rw [hsize]
        exact hlength other (List.mem_cons_of_mem _ hmem)
      rw [List.foldl_cons, hrest, hcontents, List.flatten_cons, List.append_assoc]

theorem writeRecords_eq (hsize : 0 < recordSize)
    (hlength : ∀ record ∈ records, record.length = recordSize) :
    writeRecords recordSize records = records.flatten := by
  rw [writeRecords, RecordWriter.written_flush,
    foldl_writeRecord (RecordWriter.hasRoom_ofSize _ hsize) hlength, RecordWriter.contents_ofSize,
    List.nil_append]

theorem recordAt_flatten (hlength : ∀ record ∈ records, record.length = recordSize)
    (stale : List UInt8) {i : Nat} (hi : i < records.length) :
    recordAt (records.flatten ++ stale) recordSize i = records[i] := by
  have hfront : (records.take i).flatten.length = i * recordSize := by
    rw [length_flatten_of_mem fun record hmem => hlength record (List.mem_of_mem_take hmem),
      List.length_take, Nat.min_eq_left hi.le]
  have hsplit : records.flatten ++ stale =
      (records.take i).flatten ++ (records[i] ++ ((records.drop (i + 1)).flatten ++ stale)) := by
    conv_lhs => rw [← List.take_append_drop i records, List.drop_eq_getElem_cons hi]
    rw [List.flatten_append, List.flatten_cons, List.append_assoc, List.append_assoc]
  rw [recordAt, hsplit, List.drop_left' hfront,
    List.take_left' (hlength _ (List.getElem_mem hi))]

theorem map_recordAt (hlength : ∀ record ∈ records, record.length = recordSize)
    (stale : List UInt8) :
    (List.range records.length).map (recordAt (records.flatten ++ stale) recordSize) = records := by
  refine List.ext_getElem (by simp) fun i hi hi' => ?_
  rw [List.getElem_map, List.getElem_range, recordAt_flatten hlength stale hi']

/-- **A run file** holds the records of its chunk, sorted; what the buffer held before is not
read. -/
theorem writeRun_eq (keySize : Nat) (hsize : 0 < recordSize)
    (hlength : ∀ record ∈ records, record.length = recordSize) (stale : List UInt8) :
    writeRun (records.flatten ++ stale)
      (sortedIndices (records.flatten ++ stale) records.length recordSize keySize) recordSize =
        (sortRun (recordKey keySize) records).flatten := by
  have hsorted : (sortedIndices (records.flatten ++ stale) records.length recordSize keySize).map
      (recordAt (records.flatten ++ stale) recordSize) = sortRun (recordKey keySize) records := by
    rw [sortedIndices, List.map_insertionSort _ (fun a b => recordKey keySize a ≤
      recordKey keySize b) _ _ fun a _ b _ => Iff.rfl, map_recordAt hlength stale, sortRun]
  rw [writeRun, hsorted, writeRecords_eq hsize]
  intro record hmem
  exact hlength record ((sortRun_perm records).mem_iff.mp hmem)

end Writing

theorem take_flatten {recordSize : Nat} {records : List (List UInt8)}
    (hlength : ∀ record ∈ records, record.length = recordSize) (n : Nat) :
    records.flatten.take (n * recordSize) = (records.take n).flatten ∧
      records.flatten.drop (n * recordSize) = (records.drop n).flatten := by
  rcases Nat.le_total n records.length with hle | hle
  · have hfront : (records.take n).flatten.length = n * recordSize := by
      rw [length_flatten_of_mem fun record hmem => hlength record (List.mem_of_mem_take hmem),
        List.length_take, Nat.min_eq_left hle]
    have hsplit : records.flatten = (records.take n).flatten ++ (records.drop n).flatten := by
      rw [← List.flatten_append, List.take_append_drop]
    rw [hsplit, List.take_left' hfront, List.drop_left' hfront]
    exact ⟨rfl, rfl⟩
  · have hall : records.flatten.length ≤ n * recordSize := by
      rw [length_flatten_of_mem hlength]
      exact Nat.mul_le_mul_right _ hle
    rw [List.take_of_length_le hall, List.drop_eq_nil_of_le hall, List.take_of_length_le hle,
      List.drop_eq_nil_of_le hle]
    exact ⟨rfl, rfl⟩

/-- One round of `createSortedRuns`. -/
theorem createSortedRuns_step (recordSize keySize : Nat) {bigBuf : List UInt8} {position : Nat}
    {input : List UInt8} (hbuf : 0 < bigBuf.length) (hmore : position < input.length)
    {wantBytes : Nat} (hwant : min (input.length - position) bigBuf.length = wantBytes) :
    ∃ hbuf' : 0 < ((input.drop position).take wantBytes ++ bigBuf.drop wantBytes).length,
      createSortedRuns recordSize keySize bigBuf position input hbuf =
        writeRun ((input.drop position).take wantBytes ++ bigBuf.drop wantBytes)
          (sortedIndices ((input.drop position).take wantBytes ++ bigBuf.drop wantBytes)
            (wantBytes / recordSize) recordSize keySize) recordSize ::
          createSortedRuns recordSize keySize
            ((input.drop position).take wantBytes ++ bigBuf.drop wantBytes)
            (position + wantBytes) input hbuf' := by
  subst hwant
  refine ⟨?_, ?_⟩
  · simp only [List.length_append, List.length_take, List.length_drop]
    omega
  · rw [createSortedRuns, if_pos hmore]

/-- **The runs of a file** are the sorted chunks of its records. -/
theorem createSortedRuns_eq {recordSize keySize perRun : Nat} (hsize : 0 < recordSize)
    (hperRun : 0 < perRun) (bigBuf : List UInt8) (position : Nat) (input : List UInt8)
    (hbuf : 0 < bigBuf.length) {records : List (List UInt8)}
    (hlength : ∀ record ∈ records, record.length = recordSize)
    (hcapacity : bigBuf.length = perRun * recordSize)
    (hrest : input.drop position = records.flatten) :
    createSortedRuns recordSize keySize bigBuf position input hbuf =
      (sortedRuns (recordKey keySize) perRun records).map List.flatten := by
  have hmax : max 1 perRun = perRun := by omega
  have hleft : input.length - position = records.length * recordSize := by
    rw [← List.length_drop, hrest, length_flatten_of_mem hlength]
  induction records using chunks.induct perRun generalizing bigBuf position with
  | case1 =>
      rw [List.length_nil, Nat.zero_mul] at hleft
      rw [createSortedRuns, if_neg (by omega)]
      simp [sortedRuns, chunks]
  | case2 x rest ih =>
      rw [hmax] at ih
      generalize hrecords : x :: rest = records at hlength hrest hleft ih
      have hlong : 0 < records.length := by rw [← hrecords]; exact Nat.succ_pos _
      have hmore : position < input.length := by
        have : 0 < records.length * recordSize := Nat.mul_pos hlong hsize
        omega
      have hwant : min (input.length - position) bigBuf.length =
          (records.take perRun).length * recordSize := by
        rw [hleft, hcapacity, Nat.mul_min_mul_right, List.length_take, Nat.min_comm]
      have hchunk : ∀ record ∈ records.take perRun, record.length = recordSize :=
        fun record hmem => hlength record (List.mem_of_mem_take hmem)
      have htake : records.take (records.take perRun).length = records.take perRun := by
        rw [List.length_take, List.take_eq_take_iff]
        omega
      have hdrop : records.drop (records.take perRun).length = records.drop perRun := by
        rw [List.length_take, List.drop_eq_drop_iff]
        omega
      have hbytes : (input.drop position).take ((records.take perRun).length * recordSize) =
          (records.take perRun).flatten := by
        rw [hrest, (take_flatten hlength _).1, htake]
      obtain ⟨hbuf', hstep⟩ := createSortedRuns_step recordSize keySize hbuf hmore hwant
      have hnext : createSortedRuns recordSize keySize _
          (position + (records.take perRun).length * recordSize) input hbuf' =
          (sortedRuns (recordKey keySize) perRun (records.drop perRun)).map List.flatten := by
        refine ih _ _ hbuf' (fun record hmem => hlength record (List.mem_of_mem_drop hmem)) ?_ ?_ ?_
        · rw [← hcapacity, List.length_append, List.length_take, List.length_drop, List.length_drop,
            ← hwant]
          omega
        · rw [← List.drop_drop, hrest, (take_flatten hlength _).2, hdrop]
        · rw [Nat.sub_add_eq, hleft, ← Nat.sub_mul, ← List.length_drop, hdrop]
      have hcut : chunks perRun records = records.take perRun :: chunks perRun (records.drop perRun) := by
        rw [← hrecords, chunks, hmax]
      rw [hstep, hnext, hbytes, Nat.mul_div_cancel _ hsize, writeRun_eq keySize hsize hchunk,
        sortedRuns, sortedRuns, hcut]
      rfl

theorem mergeRunFiles_eq {recordSize keySize perRun : Nat} (hsize : 0 < recordSize)
    {records : List (List UInt8)} (hlength : ∀ record ∈ records, record.length = recordSize) :
    mergeRunFiles recordSize keySize
      ((sortedRuns (recordKey keySize) perRun records).map List.flatten) =
        externalSort (recordKey keySize) perRun records := by
  have hruns : ((sortedRuns (recordKey keySize) perRun records).map List.flatten).map
      (chunks recordSize) = sortedRuns (recordKey keySize) perRun records := by
    rw [List.map_map]
    refine (List.map_congr_left fun run hrun => ?_).trans (List.map_id _)
    refine chunks_flatten hsize fun record hmem => hlength record ?_
    exact (sortedRuns_perm perRun records).mem_iff.mp (List.mem_flatten_of_mem hrun hmem)
  rw [mergeRunFiles, hruns, externalSort]

/-- **`externalSort` on the bytes of a file** is the sort of its records. -/
theorem externalSortFile_eq (o : SortOptions) (f : RecordFile o.headerSize o.recordSize)
    (hinput : o.input = f.bytes) (hkey : 0 < o.keySize) (hkeySize : o.keySize ≤ o.recordSize) :
    ∃ runsCreated perRun : Nat, externalSortFile o = .ok
      { output := (if o.preserveHeader then f.header else []) ++
          (externalSort (recordKey o.keySize) perRun f.records).flatten
        runsCreated
        recordsSorted := f.records.length
        bytesOut := ((if o.preserveHeader then f.header else []) ++
          (externalSort (recordKey o.keySize) perRun f.records).flatten).length } := by
  have hsize : 0 < o.recordSize := by omega
  have hwhole := f.not_truncated
  have htotal : (f.bytes.length - o.headerSize) / o.recordSize = f.records.length := by
    rw [f.length_bytes, Nat.add_sub_cancel_left, Nat.mul_div_cancel _ hsize]
  unfold externalSortFile
  rw [dif_neg hsize.ne', if_neg (by omega), if_neg (by rwa [hinput])]
  dsimp only
  have hruns : ∀ hbuf, createSortedRuns o.recordSize o.keySize
      (List.replicate (recordsPerRun o.budget o.recordSize * o.recordSize) (0 : UInt8)) o.headerSize
      o.input hbuf = (sortedRuns (recordKey o.keySize) (recordsPerRun o.budget o.recordSize)
        f.records).map List.flatten := by
    intro hbuf
    refine createSortedRuns_eq hsize (recordsPerRun_pos _ _) _ _ _ hbuf f.record_length ?_ ?_
    · rw [List.length_replicate]
    · rw [hinput, f.drop_bytes]
  have hsorted : (externalSort (recordKey o.keySize) (recordsPerRun o.budget o.recordSize)
      f.records).Perm f.records := (externalSort_spec _ _).1
  have hlength : ∀ record ∈ externalSort (recordKey o.keySize) (recordsPerRun o.budget o.recordSize)
      f.records, record.length = o.recordSize :=
    fun record hmem => f.record_length record (hsorted.mem_iff.mp hmem)
  have hheader : (if o.preserveHeader = true ∧ 0 < o.headerSize then f.bytes.take o.headerSize
      else []) = if o.preserveHeader then f.header else [] := by
    rw [f.take_bytes]
    rcases Nat.eq_zero_or_pos o.headerSize with hzero | hpos
    · have hempty : f.header = [] := List.length_eq_zero_iff.mp (f.header_length.trans hzero)
      simp [hempty]
    · simp [hpos]
  rw [hruns, mergeRunFiles_eq hsize f.record_length, hinput, htotal, hsorted.length_eq,
    if_neg (not_not.mpr rfl), hheader, writeRecords_eq hsize hlength, ← List.length_append]
  exact ⟨_, _, rfl⟩

end UtxoTracker.Bulk

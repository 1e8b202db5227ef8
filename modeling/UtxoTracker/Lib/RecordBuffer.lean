import UtxoTracker.Lib.Chunks
/-!
# Buffered files of fixed-size records

A reader that refills one buffer and hands out views into it, and a writer that collects records in
a buffer and flushes it when it is full. A view is an offset: what it shows is what the buffer holds
when it is looked at.
-/

namespace RecordBuffer

open Chunks

variable {α : Type*}

/-- A buffer of `capacity` holds as many whole records as `chunkBytes` does, and at least one. -/
def recordsPerBuffer (chunkBytes recordSize : Nat) : Nat := max 1 (chunkBytes / recordSize)

/-! ### Reading -/

structure RecordReader (α : Type*) where
  file : List α
  recordSize : Nat
  pos : Nat
  buf : List α
  bufLen : Nat
  bufOff : Nat
  recordSize_pos : 0 < recordSize
  buf_pos : 0 < buf.length

namespace RecordReader

variable (r : RecordReader α)

/-- A reader that stands behind the header, its buffer allocated and empty. -/
def ofFile [Inhabited α] (chunkBytes : Nat) (file : List α) (headerSize recordSize : Nat)
    (hsize : 0 < recordSize) : RecordReader α :=
  { file
    recordSize
    pos := headerSize
    buf := List.replicate (recordsPerBuffer chunkBytes recordSize * recordSize) default
    bufLen := 0
    bufOff := 0
    recordSize_pos := hsize
    buf_pos := by
      rw [List.length_replicate]
      exact Nat.mul_pos (by unfold recordsPerBuffer; omega) hsize }

/-- Read `want` more over the front of the buffer. -/
def fill (want : Nat) (hmore : want ≤ r.file.length - r.pos) : RecordReader α :=
  { r with
    buf := (r.file.drop r.pos).take want ++ r.buf.drop want
    pos := r.pos + want
    bufLen := want
    bufOff := 0
    buf_pos := by
      have hbuf := r.buf_pos
      simp only [List.length_append, List.length_take, List.length_drop]
      omega }

/-- Read as much as fits; `false` at the end of the file. -/
def refill : Bool × RecordReader α :=
  if r.file.length ≤ r.pos then (false, { r with bufLen := 0, bufOff := 0 })
  else (true, r.fill (min r.buf.length (r.file.length - r.pos)) (Nat.min_le_right _ _))

/-- The next record's view, the cursor past it. -/
def step : Option Nat × RecordReader α :=
  (some r.bufOff, { r with bufOff := r.bufOff + r.recordSize })

def next : Option Nat × RecordReader α :=
  if r.bufLen ≤ r.bufOff then
    if r.refill.1 then r.refill.2.step else (none, r.refill.2)
  else r.step

/-- What a view shows. -/
def view (off : Nat) : List α := (r.buf.drop off).take r.recordSize

/-- A bound on what is left to read. -/
def unread : Nat := (r.file.length - r.pos) + (r.bufLen - r.bufOff)

variable {r}

theorem unread_next_some {off : Nat} (hnext : r.next.1 = some off) :
    r.next.2.unread < r.unread := by
  have hsize := r.recordSize_pos
  have hbuf := r.buf_pos
  unfold next at hnext ⊢
  split at hnext
  · rename_i hempty
    rw [if_pos hempty]
    split at hnext
    · rename_i hfilled
      rw [if_pos hfilled]
      unfold refill at hfilled ⊢
      split at hfilled
      · cases hfilled
      · rename_i hmore
        rw [if_neg hmore]
        simp only [step, fill, unread]
        omega
    · cases hnext
  · rename_i hmore
    rw [if_neg hmore]
    simp only [step, unread]
    omega

theorem unread_next_none (hnext : r.next.1 = none) : r.next.2.unread ≤ r.unread := by
  unfold next at hnext ⊢
  split at hnext
  · rename_i hempty
    rw [if_pos hempty]
    split at hnext
    · cases hnext
    · rename_i hend
      rw [if_neg hend]
      unfold refill at hend ⊢
      split at hend
      · rename_i hover
        rw [if_pos hover]
        simp only [unread]
        omega
      · exact absurd rfl hend
  · cases hnext

/-! What a reader yields. -/

/-- What has not been read: the rest of the buffer, then the rest of the file. -/
def pending (r : RecordReader α) : List α :=
  (r.buf.take r.bufLen).drop r.bufOff ++ r.file.drop r.pos

/-- The buffer and the file break between records. -/
structure Aligned (r : RecordReader α) : Prop where
  bufLen_le : r.bufLen ≤ r.buf.length
  buf : r.recordSize ∣ r.buf.length
  buffered : r.recordSize ∣ r.bufLen - r.bufOff
  unbuffered : r.recordSize ∣ r.file.length - r.pos

theorem aligned_ofFile [Inhabited α] {chunkBytes headerSize recordSize : Nat} {file : List α}
    (hsize : 0 < recordSize) (hwhole : recordSize ∣ file.length - headerSize) :
    (ofFile chunkBytes file headerSize recordSize hsize).Aligned where
  bufLen_le := Nat.zero_le _
  buf := by
    simp only [ofFile, List.length_replicate]
    exact Nat.dvd_mul_left _ _
  buffered := Nat.dvd_zero _
  unbuffered := hwhole

theorem pending_ofFile [Inhabited α] (chunkBytes : Nat) (file : List α) {headerSize recordSize : Nat}
    (hsize : 0 < recordSize) :
    (ofFile chunkBytes file headerSize recordSize hsize).pending = file.drop headerSize := by
  simp [pending, ofFile]

/-- Stepping over a record that is in the buffer. -/
theorem step_spec (haligned : r.Aligned) (hmore : r.bufOff < r.bufLen) :
    r.step.2.Aligned ∧ r.step.2.view r.bufOff = r.pending.take r.recordSize ∧
      r.step.2.pending = r.pending.drop r.recordSize := by
  have hsize := r.recordSize_pos
  have hle := haligned.bufLen_le
  have hwhole : r.recordSize ≤ r.bufLen - r.bufOff :=
    Nat.le_of_dvd (by omega) haligned.buffered
  have hlength : ((r.buf.take r.bufLen).drop r.bufOff).length = r.bufLen - r.bufOff := by
    rw [List.length_drop, List.length_take, Nat.min_eq_left hle]
  refine ⟨⟨hle, haligned.buf, ?_, haligned.unbuffered⟩, ?_, ?_⟩
  · change r.recordSize ∣ r.bufLen - (r.bufOff + r.recordSize)
    rw [Nat.sub_add_eq]
    exact Nat.dvd_sub haligned.buffered (Nat.dvd_refl _)
  · change (r.buf.drop r.bufOff).take r.recordSize = _
    rw [pending, List.take_append_of_le_length (by omega), List.drop_take, List.take_take,
      Nat.min_eq_left hwhole]
  · change (r.buf.take r.bufLen).drop (r.bufOff + r.recordSize) ++ r.file.drop r.pos = _
    rw [pending, List.drop_append_of_le_length (by omega), List.drop_drop]

theorem fill_spec (haligned : r.Aligned) (hempty : r.bufLen ≤ r.bufOff) {want : Nat}
    (hmore : want ≤ r.file.length - r.pos) (hfits : want ≤ r.buf.length)
    (hwhole : r.recordSize ∣ want) :
    (r.fill want hmore).Aligned ∧ (r.fill want hmore).pending = r.pending := by
  have htake : ((r.file.drop r.pos).take want).length = want := by
    rw [List.length_take, List.length_drop]
    omega
  have hlength : ((r.file.drop r.pos).take want ++ r.buf.drop want).length = r.buf.length := by
    rw [List.length_append, htake, List.length_drop]
    omega
  refine ⟨⟨?_, ?_, hwhole, ?_⟩, ?_⟩
  · change want ≤ ((r.file.drop r.pos).take want ++ r.buf.drop want).length
    omega
  · change r.recordSize ∣ ((r.file.drop r.pos).take want ++ r.buf.drop want).length
    rw [hlength]
    exact haligned.buf
  · change r.recordSize ∣ r.file.length - (r.pos + want)
    rw [Nat.sub_add_eq]
    exact Nat.dvd_sub haligned.unbuffered hwhole
  · change (((r.file.drop r.pos).take want ++ r.buf.drop want).take want).drop 0 ++
      r.file.drop (r.pos + want) = (r.buf.take r.bufLen).drop r.bufOff ++ r.file.drop r.pos
    have hread : (r.buf.take r.bufLen).drop r.bufOff = [] :=
      List.drop_eq_nil_of_le (by rw [List.length_take]; omega)
    rw [hread, List.nil_append, List.drop_zero, List.take_append_of_le_length (by omega),
      List.take_of_length_le (by omega), ← List.drop_drop, List.take_append_drop]

theorem refill_spec (haligned : r.Aligned) (hempty : r.bufLen ≤ r.bufOff)
    (hmore : r.pos < r.file.length) :
    r.refill.1 = true ∧ r.refill.2.Aligned ∧ r.refill.2.bufOff < r.refill.2.bufLen ∧
      r.refill.2.pending = r.pending ∧ r.refill.2.recordSize = r.recordSize := by
  have hbuf := r.buf_pos
  have hwhole : r.recordSize ∣ min r.buf.length (r.file.length - r.pos) := by
    rcases Nat.le_total r.buf.length (r.file.length - r.pos) with hle | hle
    · rw [Nat.min_eq_left hle]
      exact haligned.buf
    · rw [Nat.min_eq_right hle]
      exact haligned.unbuffered
  obtain ⟨hfilled, hpending⟩ := fill_spec haligned hempty (Nat.min_le_right _ _)
    (Nat.min_le_left _ _) hwhole
  unfold refill
  rw [if_neg (by omega)]
  refine ⟨rfl, hfilled, ?_, hpending, rfl⟩
  change 0 < min r.buf.length (r.file.length - r.pos)
  omega

/-- **The reader yields its records one after another.** -/
theorem next_spec (haligned : r.Aligned) (hmore : r.pending ≠ []) :
    ∃ off, r.next.1 = some off ∧ r.next.2.Aligned ∧
      r.next.2.view off = r.pending.take r.recordSize ∧
      r.next.2.pending = r.pending.drop r.recordSize ∧ r.next.2.recordSize = r.recordSize := by
  unfold next
  split
  · rename_i hempty
    have hfile : r.pos < r.file.length := by
      by_contra hend
      apply hmore
      rw [pending, List.drop_eq_nil_of_le (by rw [List.length_take]; omega), List.nil_append,
        List.drop_eq_nil_of_le (by omega)]
    obtain ⟨hfilled, haligned', hmore', hpending, hsize⟩ := refill_spec haligned hempty hfile
    obtain ⟨hstep, hview, hrest⟩ := step_spec haligned' hmore'
    rw [if_pos hfilled, ← hpending, ← hsize]
    exact ⟨_, rfl, hstep, hview, hrest, rfl⟩
  · rename_i hbuffered
    obtain ⟨hstep, hview, hrest⟩ := step_spec haligned (by omega)
    exact ⟨_, rfl, hstep, hview, hrest, rfl⟩

theorem next_end (haligned : r.Aligned) (hend : r.pending = []) : r.next.1 = none := by
  have hle := haligned.bufLen_le
  rw [pending, List.append_eq_nil_iff, List.drop_eq_nil_iff, List.drop_eq_nil_iff,
    List.length_take, Nat.min_eq_left hle] at hend
  unfold next refill
  rw [if_pos hend.1, if_pos hend.2]
  rfl

/-- The reader has shown all but `records`, of which the view `curr` is the first. -/
inductive Showing (r : RecordReader α) : Option Nat → List (List α) → Prop where
  | done : Showing r none []
  | record {off : Nat} {rest : List (List α)} (haligned : r.Aligned)
      (hpending : r.pending = rest.flatten) (hlength : ∀ record ∈ rest, record.length = r.recordSize)
      (hview : (r.view off).length = r.recordSize) : Showing r (some off) (r.view off :: rest)

theorem Showing.of_some {off : Nat} {records : List (List α)} (hshowing : Showing r (some off) records) :
    ∃ rest, records = r.view off :: rest ∧ r.Aligned ∧ r.pending = rest.flatten ∧
      (∀ record ∈ rest, record.length = r.recordSize) ∧ (r.view off).length = r.recordSize := by
  cases hshowing with
  | record haligned hpending hlength hview => exact ⟨_, rfl, haligned, hpending, hlength, hview⟩

/-- The reader moves on to the next of the records it has left. -/
theorem showing_next {records : List (List α)} (haligned : r.Aligned)
    (hpending : r.pending = records.flatten)
    (hlength : ∀ record ∈ records, record.length = r.recordSize) :
    Showing r.next.2 r.next.1 records ∧
      (records ≠ [] → r.next.2.recordSize = r.recordSize) := by
  cases records with
  | nil =>
      rw [next_end haligned hpending]
      exact ⟨.done, fun h => absurd rfl h⟩
  | cons record rest =>
      have hrecord : record.length = r.recordSize := hlength record List.mem_cons_self
      have hpos := r.recordSize_pos
      have hmore : r.pending ≠ [] := by
        rw [hpending, List.flatten_cons]
        intro hnil
        rw [(List.append_eq_nil_iff.mp hnil).1, List.length_nil] at hrecord
        omega
      obtain ⟨off, hnext, haligned', hview, hrest, hsize⟩ := next_spec haligned hmore
      rw [hpending, List.flatten_cons, ← hrecord, List.take_left] at hview
      rw [hpending, List.flatten_cons, ← hrecord, List.drop_left] at hrest
      refine ⟨?_, fun _ => hsize⟩
      rw [hnext, ← hview]
      refine .record haligned' hrest (fun other hmem => ?_) ?_
      · rw [hsize]
        exact hlength other (List.mem_cons_of_mem _ hmem)
      · rw [hview, hsize, hrecord]

end RecordReader

/-! ### Writing -/

structure RecordWriter (α : Type*) where
  /-- The file so far. -/
  written : List α
  recordSize : Nat
  buf : List α
  /-- Records in the buffer. -/
  bufLen : Nat

namespace RecordWriter

variable (w : RecordWriter α)

def ofSize [Inhabited α] (chunkBytes recordSize : Nat) : RecordWriter α :=
  { written := []
    recordSize
    buf := List.replicate (recordsPerBuffer chunkBytes recordSize * recordSize) default
    bufLen := 0 }

def flush : RecordWriter α :=
  if w.bufLen = 0 then w
  else { w with written := w.written ++ w.buf.take (w.bufLen * w.recordSize), bufLen := 0 }

def writeRaw (bytes : List α) : RecordWriter α :=
  { w.flush with written := w.flush.written ++ bytes }

/-- Copy the record into the buffer, and flush the buffer when it is full. -/
def writeRecord (record : List α) : RecordWriter α :=
  let off := w.bufLen * w.recordSize
  let w := { w with
    buf := w.buf.take off ++ record ++ w.buf.drop (off + record.length)
    bufLen := w.bufLen + 1 }
  if w.bufLen = w.buf.length / w.recordSize then w.flush else w

/-- What the file holds once the buffer is flushed. -/
def contents : List α := w.written ++ w.buf.take (w.bufLen * w.recordSize)

/-- The buffer has room for one more record. -/
structure HasRoom (w : RecordWriter α) : Prop where
  recordSize_pos : 0 < w.recordSize
  room : w.bufLen < w.buf.length / w.recordSize

variable {w}

theorem hasRoom_ofSize [Inhabited α] (chunkBytes : Nat) {recordSize : Nat} (hsize : 0 < recordSize) :
    (ofSize chunkBytes recordSize : RecordWriter α).HasRoom where
  recordSize_pos := hsize
  room := by
    simp only [ofSize, List.length_replicate]
    rw [Nat.mul_div_cancel _ hsize]
    unfold recordsPerBuffer
    omega

@[simp]
theorem contents_ofSize [Inhabited α] (chunkBytes recordSize : Nat) :
    (ofSize chunkBytes recordSize : RecordWriter α).contents = [] := by
  simp [contents, ofSize]

@[simp]
theorem contents_flush : w.flush.contents = w.contents := by
  unfold flush contents
  split
  · rfl
  · simp

theorem written_flush : w.flush.written = w.contents := by
  unfold flush contents
  split
  · rename_i hempty
    simp [hempty]
  · rfl

theorem HasRoom.writeRaw (hroom : w.HasRoom) (bytes : List α) :
    (w.writeRaw bytes).HasRoom ∧ (w.writeRaw bytes).contents = w.contents ++ bytes ∧
      (w.writeRaw bytes).recordSize = w.recordSize := by
  have hsize := hroom.recordSize_pos
  have hfull := hroom.room
  have hflush : w.flush.recordSize = w.recordSize ∧ w.flush.buf = w.buf ∧ w.flush.bufLen = 0 := by
    unfold flush
    split
    · rename_i hempty
      exact ⟨rfl, rfl, hempty⟩
    · exact ⟨rfl, rfl, rfl⟩
  obtain ⟨hrecord, hbuf, hlen⟩ := hflush
  refine ⟨⟨?_, ?_⟩, ?_, hrecord⟩
  · change 0 < w.flush.recordSize
    omega
  · change w.flush.bufLen < w.flush.buf.length / w.flush.recordSize
    rw [hrecord, hbuf, hlen]
    omega
  · change w.flush.written ++ bytes ++ w.flush.buf.take (w.flush.bufLen * _) = _
    rw [hlen, Nat.zero_mul, List.take_zero, List.append_nil, written_flush]

/-- **The writer keeps every record it is given, in order.** -/
theorem HasRoom.writeRecord {record : List α} (hroom : w.HasRoom)
    (hlength : record.length = w.recordSize) :
    (w.writeRecord record).HasRoom ∧ (w.writeRecord record).contents = w.contents ++ record ∧
      (w.writeRecord record).recordSize = w.recordSize := by
  have hsize := hroom.recordSize_pos
  have hfits : (w.bufLen + 1) * w.recordSize ≤ w.buf.length := by
    calc (w.bufLen + 1) * w.recordSize ≤ w.buf.length / w.recordSize * w.recordSize :=
          Nat.mul_le_mul_right _ hroom.room
      _ ≤ w.buf.length := Nat.div_mul_le_self _ _
  have hsplit : (w.bufLen + 1) * w.recordSize = w.bufLen * w.recordSize + w.recordSize :=
    Nat.succ_mul _ _
  have hbuf : (w.buf.take (w.bufLen * w.recordSize) ++ record ++
      w.buf.drop (w.bufLen * w.recordSize + record.length)).length = w.buf.length := by
    simp only [List.length_append, List.length_take, List.length_drop]
    omega
  -- The buffer's front, with the record behind it.
  have hfront : (w.buf.take (w.bufLen * w.recordSize) ++ record ++
      w.buf.drop (w.bufLen * w.recordSize + record.length)).take
        ((w.bufLen + 1) * w.recordSize) = w.buf.take (w.bufLen * w.recordSize) ++ record := by
    have hlen : (w.buf.take (w.bufLen * w.recordSize) ++ record).length =
        (w.bufLen + 1) * w.recordSize := by
      rw [List.length_append, List.length_take]
      omega
    rw [← hlen, List.take_left]
  generalize hcopied : w.buf.take (w.bufLen * w.recordSize) ++ record ++
    w.buf.drop (w.bufLen * w.recordSize + record.length) = copied at hbuf hfront
  have hcontents : ({ w with buf := copied, bufLen := w.bufLen + 1 } : RecordWriter α).contents =
      w.contents ++ record := by
    simp only [contents]
    rw [hfront, List.append_assoc]
  unfold RecordWriter.writeRecord
  dsimp only
  rw [hcopied, hbuf]
  split
  · refine ⟨⟨?_, ?_⟩, contents_flush.trans hcontents, ?_⟩
    · unfold flush
      rw [if_neg (Nat.succ_ne_zero _)]
      exact hsize
    · unfold flush
      rw [if_neg (Nat.succ_ne_zero _)]
      dsimp only
      rw [hbuf]
      have := hroom.room
      omega
    · unfold flush
      rw [if_neg (Nat.succ_ne_zero _)]
  · rename_i hnot
    refine ⟨⟨hsize, ?_⟩, hcontents, rfl⟩
    dsimp only
    rw [hbuf]
    have := hroom.room
    omega

end RecordWriter

end RecordBuffer

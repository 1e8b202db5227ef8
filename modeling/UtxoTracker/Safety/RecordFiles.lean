import Mathlib.Data.List.DropRight
import UtxoTracker.Proof.RecordFiles
/-!
# What the sort and the join of record files give

Both are stated on the bytes of the files: for a header and whole records, with any number of
records under a key.
-/

namespace UtxoTracker.Bulk

open Chunks ExternalSort RecordBuffer

/-- The records that carry a key, in file order. -/
abbrev underKey (keySize : Nat) (k : List Nat) (records : List (List UInt8)) : List (List UInt8) :=
  AntiJoin.withKey (recordKey keySize) k records

def KeyOrdered (keySize : Nat) (records : List (List UInt8)) : Prop :=
  records.Pairwise fun a b => recordKey keySize a ≤ recordKey keySize b

instance (keySize : Nat) (records : List (List UInt8)) : Decidable (KeyOrdered keySize records) := by
  unfold KeyOrdered
  infer_instance

/-- **`externalSort` is a stable sort.** The output holds the records of the input, ordered by key,
those of one key in input order, behind the header if that is kept. -/
theorem externalSort_stable_sort (o : SortOptions) (f : RecordFile o.headerSize o.recordSize)
    (hinput : o.input = f.bytes) (hkey : 0 < o.keySize) (hkeySize : o.keySize ≤ o.recordSize) :
    ∃ (runsCreated : Nat) (sorted : List (List UInt8)),
      let output := (if o.preserveHeader then f.header else []) ++ sorted.flatten
      externalSortFile o = .ok
        { output, runsCreated, recordsSorted := f.records.length, bytesOut := output.length } ∧
      sorted.Perm f.records ∧ KeyOrdered o.keySize sorted ∧
      ∀ k, underKey o.keySize k sorted = underKey o.keySize k f.records := by
  obtain ⟨runsCreated, perRun, hok⟩ := externalSortFile_eq o f hinput hkey hkeySize
  obtain ⟨hperm, hsorted⟩ : (externalSort (recordKey o.keySize) perRun f.records).Perm f.records ∧
      KeyOrdered o.keySize (externalSort (recordKey o.keySize) perRun f.records) :=
    externalSort_spec perRun f.records
  exact ⟨runsCreated, _, hok, hperm, hsorted, fun k => externalSort_stable perRun f.records k⟩

/-- Five records of two bytes, two to a run, sorted by the first byte. -/
def fiveRecords : SortOptions :=
  { input := [9, 3, 0, 1, 1, 3, 2, 2, 3, 1, 4]
    headerSize := 1
    recordSize := 2
    keySize := 1
    ramBudgetBytes := 4
    preserveHeader := true }

def fiveRecordsFile : RecordFile 1 2 where
  header := [9]
  records := [[3, 0], [1, 1], [3, 2], [2, 3], [1, 4]]
  header_length := rfl
  record_length := by decide

theorem externalSort_stable_sort_fiveRecords :
    ∃ (runsCreated : Nat) (sorted : List (List UInt8)),
      externalSortFile fiveRecords = .ok
        { output := 9 :: sorted.flatten
          runsCreated
          recordsSorted := 5
          bytesOut := sorted.flatten.length + 1 } ∧
      sorted.Perm fiveRecordsFile.records ∧ KeyOrdered 1 sorted ∧
      ∀ k, underKey 1 k sorted = underKey 1 k fiveRecordsFile.records :=
  externalSort_stable_sort fiveRecords fiveRecordsFile rfl (by decide) (by decide)

theorem rtake_sub {α : Type} (xs : List α) (n : Nat) : xs.rtake (xs.length - n) = xs.drop n := by
  rw [List.rtake]
  rcases Nat.le_total n xs.length with hle | hle
  · rw [Nat.sub_sub_self hle]
  · rw [Nat.sub_eq_zero_of_le hle, Nat.sub_zero, List.drop_length, List.drop_eq_nil_of_le hle]

/-- **`leftAntiJoin` counts with multiplicity.** Of the `l` left records of a key, as many as there
are right ones are cancelled from the front, and the rest is written in order. -/
theorem leftAntiJoin_multiset (o : JoinOptions)
    (left : RecordFile o.leftHeaderSize o.leftRecordSize)
    (right : RecordFile o.rightHeaderSize o.rightRecordSize)
    (hleft : o.left = left.bytes) (hright : o.right = right.bytes) (hkey : 0 < o.keySize)
    (hleftKey : o.keySize ≤ o.leftRecordSize) (hrightKey : o.keySize ≤ o.rightRecordSize)
    (hleftSorted : KeyOrdered o.keySize left.records)
    (hrightSorted : KeyOrdered o.keySize right.records) :
    ∃ (emitted : List (List UInt8)) (stats : JoinStats),
      leftAntiJoin o =
        .ok ((if o.copyLeftHeader then left.header else []) ++ emitted.flatten, stats) ∧
      (∀ k, underKey o.keySize k emitted = (underKey o.keySize k left.records).rtake
        ((underKey o.keySize k left.records).length -
          (underKey o.keySize k right.records).length)) ∧
      KeyOrdered o.keySize emitted ∧
      stats.leftRead = left.records.length ∧ stats.rightRead = right.records.length ∧
      stats.emitted = emitted.length ∧
      ∀ keys : Finset (List Nat), (∀ record ∈ left.records ++ right.records,
          recordKey o.keySize record ∈ keys) →
        stats.canceled = ∑ k ∈ keys, min (underKey o.keySize k left.records).length
            (underKey o.keySize k right.records).length ∧
        stats.orphanSpends = ∑ k ∈ keys, ((underKey o.keySize k right.records).length -
            (underKey o.keySize k left.records).length) := by
  obtain ⟨stats, hok, hleftRead, hrightRead, hemitted, hcanceled, horphans⟩ :=
    leftAntiJoin_eq o left right hleft hright hkey hleftKey hrightKey
  refine ⟨_, stats, hok, fun k => ?_, ?_, hleftRead, hrightRead, hemitted, fun keys hkeys => ?_⟩
  · rw [rtake_sub]
    exact AntiJoin.joinRecords_withKey _ _ hleftSorted hrightSorted k
  · exact hleftSorted.sublist (AntiJoin.joinRecords_sublist _ _)
  · obtain ⟨hpairs, hsum⟩ := AntiJoin.joinRecords_counts hleftSorted hrightSorted
      (fun l hl => hkeys l (List.mem_append_left _ hl))
      fun r hr => hkeys r (List.mem_append_right _ hr)
    exact ⟨Nat.add_left_cancel ((Nat.add_comm _ _).trans (hcanceled.trans hpairs)),
      horphans.trans hsum⟩

/-- Two left records of a key that three right records cancel, and three of a key that one does;
the right files's last record is an orphan. -/
def duplicateKeys : JoinOptions :=
  { leftPath := "left"
    left := [9, 1, 0, 1, 1, 2, 0, 2, 1, 2, 2]
    rightPath := "right"
    right := [1, 1, 1, 2, 3]
    leftHeaderSize := 1
    rightHeaderSize := 0
    leftRecordSize := 2
    rightRecordSize := 1
    keySize := 1
    copyLeftHeader := true }

def duplicateKeysLeft : RecordFile 1 2 where
  header := [9]
  records := [[1, 0], [1, 1], [2, 0], [2, 1], [2, 2]]
  header_length := rfl
  record_length := by decide

def duplicateKeysRight : RecordFile 0 1 where
  header := []
  records := [[1], [1], [1], [2], [3]]
  header_length := rfl
  record_length := by decide

theorem leftAntiJoin_multiset_duplicateKeys :
    ∃ (emitted : List (List UInt8)) (stats : JoinStats),
      leftAntiJoin duplicateKeys = .ok (9 :: emitted.flatten, stats) ∧
      (∀ k, underKey 1 k emitted = (underKey 1 k duplicateKeysLeft.records).rtake
        ((underKey 1 k duplicateKeysLeft.records).length -
          (underKey 1 k duplicateKeysRight.records).length)) ∧
      KeyOrdered 1 emitted ∧ stats.leftRead = 5 ∧ stats.rightRead = 5 ∧
      stats.emitted = emitted.length ∧ stats.canceled = 3 ∧ stats.orphanSpends = 2 := by
  obtain ⟨emitted, stats, hok, hkeys, hsorted, hleft, hright, hemitted, hcounts⟩ :=
    leftAntiJoin_multiset duplicateKeys duplicateKeysLeft duplicateKeysRight rfl rfl (by decide)
      (by decide) (by decide) (by decide) (by decide)
  obtain ⟨hcanceled, horphans⟩ := hcounts {[1], [2], [3]} (by decide)
  exact ⟨emitted, stats, hok, hkeys, hsorted, hleft, hright, hemitted,
    hcanceled.trans (by decide), horphans.trans (by decide)⟩

end UtxoTracker.Bulk

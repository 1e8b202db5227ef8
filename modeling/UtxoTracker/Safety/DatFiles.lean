import Mathlib.Algebra.BigOperators.Group.List.Basic
import UtxoTracker.Proof.DatFiles
/-!
# The concatenation is all or nothing

Which inputs are concatenated and what the output is, that a failure leaves the final path as it was,
and that a write which comes short goes unnoticed.
-/

namespace UtxoTracker.DatFiles

open Throwing ByteString ValueCodec

variable {faults : Faults} {cuts : Cuts} {s s' : Disk} {headerSize : Nat} {file : List UInt8}
  {files : List (List UInt8)}

/-! ### Which inputs are concatenated -/

/-- The inputs are whole files of one kind whose ranges follow each other. -/
structure Joinable (headerSize : Nat) (files : List (List UInt8)) : Prop where
  nonempty : files ≠ []
  whole : ∀ file ∈ files, headerSize ≤ file.length
  same : ∀ file ∈ files, ∀ other ∈ files,
    ThisHdr.ofHeader (file.take headerSize) = ThisHdr.ofHeader (other.take headerSize)
  contiguous : files.IsChain fun file next =>
    firstHeightOf (next.take headerSize) = lastHeightOf (file.take headerSize) + 1
  empty : ∀ file ∈ files, recordCountOf (file.take headerSize) = 0 → file.length = headerSize

/-- The record counts of the inputs together. -/
def totalRecordCount (headerSize : Nat) (files : List (List UInt8)) : Nat :=
  (files.map fun file => recordCountOf (file.take headerSize)).sum

/-- The greatest last height of the inputs. -/
def maxLastHeight (headerSize : Nat) (files : List (List UInt8)) : Nat :=
  files.foldr (fun file height => max (lastHeightOf (file.take headerSize)) height) 0

theorem addAll_recordCount (i : Nat) (totals : Totals) (files : List (List UInt8)) :
    (totals.addAll headerSize i files).recordCount =
      totals.recordCount + totalRecordCount headerSize files := by
  induction files generalizing i totals with
  | nil => rfl
  | cons file rest ih =>
      rw [Totals.addAll, ih, totalRecordCount, totalRecordCount, List.map_cons, List.sum_cons,
        ← Nat.add_assoc]
      rfl

theorem addAll_maxLastHeight (i : Nat) (totals : Totals) (files : List (List UInt8)) :
    (totals.addAll headerSize i files).maxLastHeight =
      max totals.maxLastHeight (maxLastHeight headerSize files) := by
  induction files generalizing i totals with
  | nil => exact (Nat.max_zero _).symm
  | cons file rest ih =>
      rw [Totals.addAll, ih, maxLastHeight, maxLastHeight, List.foldr_cons, ← Nat.max_assoc]
      rfl

/-- The range of `next` follows that of `file`. -/
def Next (headerSize : Nat) (file next : List UInt8) : Prop :=
  firstHeightOf (next.take headerSize) = lastHeightOf (file.take headerSize) + 1

/-- A whole file with the first one's header, not left over from a crash. -/
structure Alike (headerSize : Nat) (first : ThisHdr) (file : List UInt8) : Prop where
  whole : headerSize ≤ file.length
  same : ThisHdr.ofHeader (file.take headerSize) = first
  empty : recordCountOf (file.take headerSize) = 0 → file.length = headerSize

theorem admits_iff {first : ThisHdr} {before : List UInt8} :
    Admits headerSize (some first) (some (lastHeightOf (before.take headerSize))) file ↔
      Alike headerSize first file ∧ Next headerSize before file := by
  constructor
  · intro hadmits
    obtain ⟨hsame, hnext⟩ := hadmits.continues first rfl
    exact ⟨⟨hadmits.whole, hsame, hadmits.empty⟩, hnext _ rfl⟩
  · rintro ⟨halike, hnext⟩
    refine ⟨halike.whole, halike.empty, ?_⟩
    intro other hother
    rw [← Option.some.inj hother]
    refine ⟨halike.same, ?_⟩
    intro last hlast
    rw [← Option.some.inj hlast]
    exact hnext

/-- The inputs after the first. -/
theorem admitsAll_some_iff {first : ThisHdr} {before : List UInt8} :
    AdmitsAll headerSize (some first) (some (lastHeightOf (before.take headerSize))) files ↔
      (∀ file ∈ files, Alike headerSize first file) ∧
        (before :: files).IsChain (Next headerSize) := by
  induction files generalizing before with
  | nil => exact iff_of_true trivial ⟨fun _ hmem => absurd hmem List.not_mem_nil, .singleton _⟩
  | cons file rest ih =>
      rw [AdmitsAll, Option.getD_some, ih, admits_iff, List.forall_mem_cons,
        List.isChain_cons_cons]
      exact and_and_and_comm

theorem admitsAll_iff (hne : files ≠ []) :
    AdmitsAll headerSize none none files ↔ Joinable headerSize files := by
  obtain ⟨first, rest, rfl⟩ := List.exists_cons_of_ne_nil hne
  rw [AdmitsAll, Option.getD_none, admitsAll_some_iff]
  constructor
  · rintro ⟨hadmits, halike, hchain⟩
    have hall : ∀ file ∈ first :: rest,
        Alike headerSize (ThisHdr.ofHeader (first.take headerSize)) file :=
      List.forall_mem_cons.mpr ⟨⟨hadmits.whole, rfl, hadmits.empty⟩, halike⟩
    refine ⟨hne, fun file hmem => (hall file hmem).whole, ?_, hchain,
      fun file hmem => (hall file hmem).empty⟩
    intro file hmem other hmem'
    rw [(hall file hmem).same, (hall other hmem').same]
  · intro hjoinable
    have hfirst : first ∈ first :: rest := List.mem_cons_self
    refine ⟨⟨hjoinable.whole first hfirst, hjoinable.empty first hfirst, ?_⟩, ?_,
      hjoinable.contiguous⟩
    · intro other hnone
      cases hnone
    intro file hmem
    have hmem' : file ∈ first :: rest := List.mem_cons_of_mem _ hmem
    exact ⟨hjoinable.whole file hmem', hjoinable.same file hmem' first hfirst,
      hjoinable.empty file hmem'⟩

theorem joins_iff (hne : files ≠ []) : Joins headerSize files ↔
    Joinable headerSize files ∧ totalRecordCount headerSize files < 2 ^ 64 := by
  rw [Joins, admitsAll_iff hne, addAll_recordCount, Totals.start, Nat.zero_add]

/-! ### The output -/

/-- The first header with the count and the last height replaced, and the inputs' bodies. -/
def concatenation (headerSize : Nat) : List (List UInt8) → List UInt8
  | [] => []
  | first :: rest =>
      patched (first.take headerSize) (maxLastHeight headerSize (first :: rest))
          (totalRecordCount headerSize (first :: rest)) ++
        (first :: rest).flatMap fun file => file.drop headerSize

theorem copied_succ (i : Nat) (files : List (List UInt8)) :
    copied headerSize (i + 1) files = files.flatMap fun file => file.drop headerSize := by
  induction files generalizing i with
  | nil => rfl
  | cons file rest ih =>
      rw [copied, ih, List.flatMap_cons]
      rfl

/-- Writing inside the first part of a file. -/
theorem writeAt_append_left {before rest bytes : List UInt8} {offset : Nat}
    (hinside : offset + bytes.length ≤ before.length) :
    writeAt (before ++ rest) offset bytes = writeAt before offset bytes ++ rest := by
  have hoffset : offset ≤ before.length := by omega
  have hall : bytes.take (before.length - offset) = bytes := List.take_of_length_le (by omega)
  have hall' : bytes.take ((before ++ rest).length - offset) = bytes := by
    apply List.take_of_length_le
    rw [List.length_append]
    omega
  rw [writeAt, writeAt, hall, hall', List.take_append_of_le_length hoffset,
    List.drop_append_of_le_length hinside]
  simp only [List.append_assoc]

/-- Patching touches the header only. -/
theorem patched_append {header body : List UInt8} (hsize : 28 ≤ header.length)
    (lastHeight recordCount : Nat) :
    patched (header ++ body) lastHeight recordCount =
      patched header lastHeight recordCount ++ body := by
  have hfour : (toLE 4 lastHeight).length = 4 := length_toLE 4 _
  have height : (toLE 8 recordCount).length = 8 := length_toLE 8 _
  have hinside : 16 + (toLE 4 lastHeight).length ≤ header.length := by omega
  rw [patched, writeAt_append_left hinside, writeAt_append_left, patched]
  rw [length_writeAt rfl (by omega)]
  omega

theorem joined_eq (hsize : 28 ≤ headerSize) (hwhole : ∀ file ∈ files, headerSize ≤ file.length)
    (hne : files ≠ []) : joined headerSize files = concatenation headerSize files := by
  obtain ⟨first, rest, rfl⟩ := List.exists_cons_of_ne_nil hne
  have hfirst := hwhole first List.mem_cons_self
  have hcopied : copied headerSize 0 (first :: rest) = first.take headerSize ++
      (first :: rest).flatMap fun file => file.drop headerSize := by
    rw [copied, copied_succ, List.flatMap_cons, ← List.append_assoc, List.take_append_drop]
    rfl
  rw [joined, hcopied, addAll_recordCount, addAll_maxLastHeight, concatenation, patched_append]
  · simp only [Totals.start, Nat.zero_add, Nat.zero_max]
  · rw [List.length_take]
    omega

/-! ### The whole function -/

variable {inputPaths : List String} {outputPath : String}

def tmpOf (outputPath : String) : String := outputPath ++ ".tmp"

theorem tmpOf_ne (outputPath : String) : tmpOf outputPath ≠ outputPath := by
  intro heq
  have hlength := congrArg String.length heq
  rw [tmpOf, String.length_append] at hlength
  have : ".tmp".length = 4 := rfl
  omega

theorem renameSync_spec {path : String} (hfile : s.dir path = some file)
    {throws : ConcatError → Disk → Prop} :
    Ensures (renameSync path outputPath) s (fun _ s' => s'.dir =
      Function.update (Function.update s.dir path none) outputPath (some file) ∧ s'.torn = s.torn)
      throws := by
  apply (contents_spec hfile).bind
  rintro a s₁ ⟨rfl, rfl⟩
  unfold Ensures
  exact ⟨rfl, rfl⟩

/-- **The function** returns with the concatenation in place, or with something else since a write came
short, or throws and leaves nothing behind. -/
theorem concatFilesWithHeader_spec (hsize : 28 < headerSize) (hne : inputPaths ≠ [])
    (htmp : tmpOf outputPath ∉ inputPaths) :
    Ensures (concatFilesWithHeader faults cuts inputPaths outputPath headerSize) s
      (fun n s' => ∃ files out, Holds s inputPaths files ∧ Joins headerSize files ∧
        s'.dir = Function.update (Function.update s.dir (tmpOf outputPath) none) outputPath
          (some out) ∧
        (out = joined headerSize files ∧ s'.torn = s.torn ∨
          out ≠ joined headerSize files ∧ Torn cuts s s') ∧
        n = (Totals.start.addAll headerSize 0 files).totalBytes)
      (fun _ s' => s'.dir = Function.update s.dir (tmpOf outputPath) none ∧
        (faults.Quiet → ¬∃ files, Holds s inputPaths files ∧ Joins headerSize files)) := by
  have hpaths : ∀ path ∈ inputPaths, path ≠ tmpOf outputPath := by
    rintro path hmem rfl
    exact htmp hmem
  unfold concatFilesWithHeader
  rw [if_neg hne]
  apply (store_spec (tmpOf outputPath) []).bind
  rintro _ s₁ ⟨hdir, hstart⟩
  have hscratched : Scratched (tmpOf outputPath) s s₁ := ⟨_, hdir⟩
  have hout₁ : s₁.dir (tmpOf outputPath) = some [] := by rw [hdir, Function.update_self]
  have hback : ∀ files, Holds s₁ inputPaths files ↔ Holds s inputPaths files := by
    intro files
    constructor
    · intro hholds
      exact hholds.congr fun path hmem => (hscratched.same (hpaths path hmem)).symm
    · intro hholds
      exact hholds.congr fun path hmem => hscratched.same (hpaths path hmem)
  apply (Ensures.onError (writeOutput_spec hsize hne hpaths hout₁) _).bind
  · rintro totals s₂ ⟨files, hholds, hjoins, ⟨content, hcontent⟩, ⟨out, hout₂, hwhole⟩, rfl⟩
    apply (renameSync_spec hout₂).bind
    rintro _ s₃ ⟨hdir₃, htorn₃⟩
    refine .pure ⟨files, out, (hback files).mp hholds, hjoins, ?_, ?_, rfl⟩
    · rw [hdir₃, hcontent, hdir, Function.update_idem, Function.update_idem]
    · refine hwhole.imp (fun h => ⟨h.1, htorn₃.trans (h.2.trans hstart)⟩) fun h => ⟨h.1, ?_, h.2.cut⟩
      rw [htorn₃, ← hstart]
      exact h.2.grown
  · rintro e s₂ ⟨⟨content, hcontent⟩, hnot⟩
    constructor
    · calc (unlink (tmpOf outputPath) s₂).dir
          = Function.update s₂.dir (tmpOf outputPath) none := rfl
        _ = Function.update s.dir (tmpOf outputPath) none := by
          rw [hcontent, hdir, Function.update_idem, Function.update_idem]
    · rintro hquiet ⟨files, hholds, hjoins⟩
      exact hnot hquiet ⟨files, (hback files).mpr hholds, hjoins⟩

theorem addAll_totalBytes (i : Nat) (totals : Totals) (files : List (List UInt8)) :
    (totals.addAll headerSize i files).totalBytes =
      totals.totalBytes + (copied headerSize i files).length := by
  induction files generalizing i totals with
  | nil => rfl
  | cons file rest ih =>
      rw [Totals.addAll, ih, copied, List.length_append, List.length_drop, ← Nat.add_assoc]
      rfl

/-- The value returned is the size of the output. -/
theorem totalBytes_eq (hsize : 28 ≤ headerSize)
    (hwhole : ∀ file ∈ files, headerSize ≤ file.length) (hne : files ≠ []) :
    (Totals.start.addAll headerSize 0 files).totalBytes =
      (concatenation headerSize files).length := by
  obtain ⟨first, rest, rfl⟩ := List.exists_cons_of_ne_nil hne
  have hfirst := hwhole first List.mem_cons_self
  have hcopied : headerSize ≤ (copied headerSize 0 (first :: rest)).length := by
    rw [copied, List.length_append, List.length_drop, startOf, if_pos rfl]
    omega
  have hlast (lastHeight : Nat) : (writeAt (copied headerSize 0 (first :: rest)) 16
      (toLE 4 lastHeight)).length = (copied headerSize 0 (first :: rest)).length :=
    length_writeAt rfl (by omega) _
  rw [addAll_totalBytes, ← joined_eq hsize hwhole hne, joined, patched,
    length_writeAt (hlast _) (by omega), Totals.start, Nat.zero_add]

/-- What a call that returned `n` has done. -/
structure Concatenated (headerSize : Nat) (inputPaths : List String) (outputPath : String)
    (files : List (List UInt8)) (s : Disk) (n : Nat) (s' : Disk) : Prop where
  read : Holds s inputPaths files
  joinable : Joinable headerSize files
  fits : totalRecordCount headerSize files < 2 ^ 64
  output : s'.dir outputPath = some (concatenation headerSize files)
  size : n = (concatenation headerSize files).length
  tmp : s'.dir (tmpOf outputPath) = none
  others : ∀ path, path ≠ outputPath → path ≠ tmpOf outputPath → s'.dir path = s.dir path

/-- What a call that threw has done. -/
structure Untouched (inputPaths : List String) (outputPath : String) (s s' : Disk) : Prop where
  others : ∀ path, path ≠ tmpOf outputPath → s'.dir path = s.dir path
  tmp : inputPaths ≠ [] → s'.dir (tmpOf outputPath) = none
  noInputs : inputPaths = [] → s' = s

/-- The inputs are there, can be joined, and have no more records than the header can count. -/
def Acceptable (headerSize : Nat) (inputPaths : List String) (s : Disk) : Prop :=
  ∃ files, Holds s inputPaths files ∧ Joinable headerSize files ∧
    totalRecordCount headerSize files < 2 ^ 64

theorem not_joinable_of_noInputs (hholds : Holds s [] files) : ¬Joinable headerSize files := by
  intro hjoinable
  cases hholds
  exact hjoinable.nonempty rfl

/-- The call's outcomes; without faults a throw is over inputs that cannot be joined. -/
theorem concatFilesWithHeader_outcome (hsize : 32 ≤ headerSize)
    (htmp : tmpOf outputPath ∉ inputPaths) :
    Ensures (concatFilesWithHeader faults cuts inputPaths outputPath headerSize) s
      (fun n s' => ∃ files, Holds s inputPaths files ∧
        (Concatenated headerSize inputPaths outputPath files s n s' ∧ s'.torn = s.torn ∨
          s'.dir outputPath ≠ some (concatenation headerSize files) ∧ Torn cuts s s'))
      (fun _ s' => Untouched inputPaths outputPath s s' ∧
        (faults.Quiet → ¬Acceptable headerSize inputPaths s)) := by
  by_cases hne : inputPaths = []
  · subst hne
    unfold concatFilesWithHeader
    rw [if_pos rfl]
    apply Ensures.throw
    refine ⟨⟨fun _ _ => rfl, fun hne => absurd rfl hne, fun _ => rfl⟩, ?_⟩
    rintro - ⟨files, hholds, hjoinable, -⟩
    exact not_joinable_of_noInputs hholds hjoinable
  apply (concatFilesWithHeader_spec (by omega) hne htmp).mono
  · rintro n s' ⟨files, out, hholds, hjoins, hdir, hwhole, rfl⟩
    have hfiles : files ≠ [] := hholds.nonempty hne
    obtain ⟨hjoinable, hfits⟩ := (joins_iff hfiles).mp hjoins
    rw [joined_eq (by omega) hjoinable.whole hfiles] at hwhole
    refine ⟨files, hholds, hwhole.imp ?_ ?_⟩
    · rintro ⟨rfl, hsame⟩
      refine ⟨⟨hholds, hjoinable, hfits, ?_, ?_, ?_, ?_⟩, hsame⟩
      · rw [hdir, Function.update_self]
      · exact totalBytes_eq (by omega) hjoinable.whole hfiles
      · rw [hdir, Function.update_of_ne (tmpOf_ne outputPath), Function.update_self]
      · intro path hpath hpath'
        rw [hdir, Function.update_of_ne hpath, Function.update_of_ne hpath']
    · rintro ⟨hne, htorn⟩
      refine ⟨?_, htorn⟩
      rw [hdir, Function.update_self]
      exact fun heq => hne (Option.some.inj heq)
  · rintro e s' ⟨hdir, hnot⟩
    refine ⟨⟨?_, ?_, fun hnil => absurd hnil hne⟩, ?_⟩
    · intro path hpath
      rw [hdir, Function.update_of_ne hpath]
    · intro _
      rw [hdir, Function.update_self]
    · rintro hquiet ⟨files, hholds, hjoinable, hfits⟩
      exact hnot hquiet ⟨files, hholds, (joins_iff (hholds.nonempty hne)).mpr ⟨hjoinable, hfits⟩⟩

/-- The outcomes when every write takes all its bytes. -/
theorem concatFilesWithHeader_wholeWrites (hsize : 32 ≤ headerSize)
    (htmp : tmpOf outputPath ∉ inputPaths) :
    Ensures (concatFilesWithHeader faults wholeWrites inputPaths outputPath headerSize) s
      (fun n s' => ∃ files, Concatenated headerSize inputPaths outputPath files s n s')
      (fun _ s' => Untouched inputPaths outputPath s s' ∧
        (faults.Quiet → ¬Acceptable headerSize inputPaths s)) := by
  apply (concatFilesWithHeader_outcome hsize htmp).mono
  · rintro n s' ⟨files, -, ⟨hdone, -⟩ | ⟨-, htorn⟩⟩
    · exact ⟨files, hdone⟩
    · exact absurd htorn not_torn_wholeWrites
  · exact fun _ _ hthrown => hthrown

/-- **The contract of a call.** It returns with the concatenation of joinable inputs in place; it
throws with every file but the temporary one as it was, and without faults only over inputs that cannot
be joined. -/
def AllOrNothing (faults : Faults) (cuts : Cuts) (s : Disk) (inputPaths : List String)
    (outputPath : String) (headerSize : Nat) : Prop :=
  Ensures (concatFilesWithHeader faults cuts inputPaths outputPath headerSize) s
    (fun n s' => ∃ files, Concatenated headerSize inputPaths outputPath files s n s')
    fun _ s' => Untouched inputPaths outputPath s s' ∧
      (faults.Quiet → ¬∃ files, Holds s inputPaths files ∧ Joinable headerSize files)

/-- If the call returns, then no write of it came short and left another file than the whole write. -/
def WritesWhole (faults : Faults) (cuts : Cuts) (s : Disk) (inputPaths : List String)
    (outputPath : String) (headerSize : Nat) : Prop :=
  Ensures (concatFilesWithHeader faults cuts inputPaths outputPath headerSize) s
    (fun _ s' => s'.torn = s.torn) fun _ _ => True

/-- Joinable inputs whose record counts do not fit the header's field together. -/
def CountsOverflow (headerSize : Nat) (inputPaths : List String) (s : Disk) : Prop :=
  ∃ files, Holds s inputPaths files ∧ Joinable headerSize files ∧
    2 ^ 64 ≤ totalRecordCount headerSize files

theorem writesWhole_wholeWrites (hsize : 32 ≤ headerSize) (htmp : tmpOf outputPath ∉ inputPaths) :
    WritesWhole faults wholeWrites s inputPaths outputPath headerSize := by
  apply (concatFilesWithHeader_outcome hsize htmp).mono
  · rintro n s' ⟨files, -, ⟨-, hsame⟩ | ⟨-, htorn⟩⟩
    · exact hsame
    · exact absurd htorn not_torn_wholeWrites
  · exact fun _ _ _ => trivial

/-- A stream of one-byte records. -/
def smallStream (firstHeight lastHeight recordCount : Nat) (body : List UInt8) : List UInt8 :=
  alloc 12 ++ toLE 4 firstHeight ++ toLE 4 lastHeight ++ toLE 8 recordCount ++ toLE 4 1 ++ alloc 32 ++
    body

/-- The streams of two blocks. -/
def twoStreams (firstCount secondCount : Nat) : Disk where
  dir path :=
    if path = "a.dat" then some (smallStream 0 0 firstCount [1, 2, 3])
    else if path = "b.dat" then some (smallStream 1 1 secondCount [4, 5])
    else none
  calls := 0

def noFaults : Faults where
  fails _ := false
  most _ := 2 ^ 20

theorem noFaults_quiet : noFaults.Quiet := ⟨fun _ => rfl, fun _ => Nat.two_pow_pos 20⟩

theorem twoStreams_holds (firstCount secondCount : Nat) :
    Holds (twoStreams firstCount secondCount) ["a.dat", "b.dat"]
      [smallStream 0 0 firstCount [1, 2, 3], smallStream 1 1 secondCount [4, 5]] :=
  .cons rfl (.cons rfl .nil)

/-- Two joinable streams whose counts do not fit the header together. -/
example : CountsOverflow 64 ["a.dat", "b.dat"] (twoStreams (2 ^ 63) (2 ^ 63)) := by
  refine ⟨_, twoStreams_holds (2 ^ 63) (2 ^ 63), ⟨?_, ?_, ?_, ?_, ?_⟩, ?_⟩
  all_goals decide

/-- The file at a path when the run returned. -/
def outputAt (path : String) : EStateM.Result ConcatError Disk Nat → Option (List UInt8)
  | .ok _ s' => s'.dir path
  | .error _ _ => none

theorem AllOrNothing.output (hcontract : AllOrNothing faults cuts s inputPaths outputPath headerSize)
    {out : List UInt8} (hout : outputAt outputPath
      (concatFilesWithHeader faults cuts inputPaths outputPath headerSize s) = some out) :
    ∃ files, Holds s inputPaths files ∧ out = concatenation headerSize files := by
  unfold AllOrNothing Ensures at hcontract
  cases hrun : concatFilesWithHeader faults cuts inputPaths outputPath headerSize s with
  | ok n s' =>
      rw [hrun] at hcontract hout
      obtain ⟨files, hdone⟩ := hcontract
      exact ⟨files, hdone.read, Option.some.inj (hout.symm.trans hdone.output)⟩
  | error e s' =>
      rw [hrun] at hout
      cases hout

/-- The tenth call, the write of the second body, comes short by a byte. -/
def lastBodyCut : Cuts := fun call => if call = 9 then 1 else 0

end UtxoTracker.DatFiles

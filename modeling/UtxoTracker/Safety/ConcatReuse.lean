import UtxoTracker.Proof.ConcatReuse
import UtxoTracker.Safety.DatFiles
/-!
# Reusing the concatenated streams

Whatever the reuse check accepts belongs to the run, but it accepts no files that the merge itself
wrote: the header of the block stream says a record size of 0, and the check refuses that.
-/

namespace UtxoTracker.DatFiles

open ByteString Throwing ValueCodec
open Xdmp (ChainName NetworkName CHAIN_CODES NETWORK_CODES)

variable {faults : Faults} {s s' : Disk} {chain : ChainName} {netName : NetworkName}
  {dirs : WorkDirs} {names : List String}

/-! ### The files of the workers -/

/-- What one parse worker wrote for its range. -/
structure WorkerOutput where
  firstHeight : Nat
  lastHeight : Nat
  outputs : List OutputsAppend
  spends : List SpendsAppend
  blocks : List MetaBlock

/-- One of the three streams of a worker. -/
structure Stream where
  start : String
  magic : List UInt8
  recordSize : Nat
  count : WorkerOutput → Nat
  file : ChainName → NetworkName → WorkerOutput → Except CodecError (List UInt8)

def Stream.outputs : Stream where
  start := "outputs-"
  magic := MAGIC_OUTPUTS
  recordSize := OUTPUTS_RECORD_SIZE
  count w := w.outputs.length
  file chain netName w := outputsFile chain netName w.firstHeight w.lastHeight w.outputs

def Stream.spends : Stream where
  start := "spends-"
  magic := MAGIC_SPENDS
  recordSize := SPENDS_RECORD_SIZE
  count w := w.spends.length
  file chain netName w := spendsFile chain netName w.firstHeight w.lastHeight w.spends

def Stream.blocks : Stream where
  start := "meta-"
  magic := MAGIC_META
  recordSize := 0
  count w := w.blocks.length
  file chain netName w := metaFile chain netName w.firstHeight w.lastHeight w.blocks

/-- The files of a stream that the merge finds. -/
def Stream.found (stream : Stream) (dirs : WorkDirs) (names : List String) : List String :=
  findFiles names dirs.parsed stream.start ".dat"

/-- The header of a worker's file. -/
def Stream.header (stream : Stream) (chain : ChainName) (netName : NetworkName)
    (w : WorkerOutput) : StreamHeader :=
  { magic := stream.magic
    chain
    netName
    firstHeight := w.firstHeight
    lastHeight := w.lastHeight
    recordCount := stream.count w
    recordSize := stream.recordSize }

/-- The files found are the closed files of the workers, in their order. -/
def Stream.Written (stream : Stream) (chain : ChainName) (netName : NetworkName)
    (dirs : WorkDirs) (names : List String) (s : Disk) (workers : List WorkerOutput) : Prop :=
  List.Forall₂ (fun path w => ∃ file,
      s.dir path = some file ∧ stream.file chain netName w = .ok file)
    (stream.found dirs names) workers

/-- **The parsed directory of a run**: workers of consecutive ranges, each with a block. -/
structure ParsedBy (chain : ChainName) (netName : NetworkName) (dirs : WorkDirs)
    (names : List String) (s : Disk) (workers : List WorkerOutput) : Prop where
  nonempty : workers ≠ []
  blocks : ∀ w ∈ workers, w.blocks ≠ []
  contiguous : workers.IsChain fun w next => next.firstHeight = w.lastHeight + 1
  written : ∀ stream ∈ [Stream.outputs, .spends, .blocks],
    stream.Written chain netName dirs names s workers

/-- The records of a stream fit the count of one header. -/
def Stream.CountFits (stream : Stream) (workers : List WorkerOutput) : Prop :=
  (workers.map stream.count).sum < 2 ^ 64

instance (stream : Stream) (workers : List WorkerOutput) : Decidable (stream.CountFits workers) :=
  inferInstanceAs (Decidable (_ < _))

/-- A file of a worker that has something in it only when its count is not 0. -/
def Stream.Made (stream : Stream) (chain : ChainName) (netName : NetworkName) (w : WorkerOutput)
    (file : List UInt8) : Prop :=
  ∃ body, StreamFile (stream.header chain netName w) body file ∧ (stream.count w = 0 → body = [])

/-- A body of as many records as the header counts. -/
theorem Stream.Made.of_records {stream : Stream} {w : WorkerOutput} {body file : List UInt8}
    (hstream : StreamFile (stream.header chain netName w) body file)
    (hlength : body.length = stream.count w * stream.recordSize) :
    stream.Made chain netName w file := by
  refine ⟨body, hstream, ?_⟩
  intro hzero
  apply List.eq_nil_of_length_eq_zero
  rw [hlength, hzero, Nat.zero_mul]

theorem Stream.made {stream : Stream} (hmem : stream ∈ [Stream.outputs, .spends, .blocks])
    {w : WorkerOutput} (hblocks : w.blocks ≠ []) {file : List UInt8}
    (hfile : stream.file chain netName w = .ok file) : stream.Made chain netName w file := by
  simp only [List.mem_cons, List.not_mem_nil, or_false] at hmem
  rcases hmem with rfl | rfl | rfl
  · obtain ⟨body, hstream, hlength⟩ := fixedRecordFile_ok
      (h := Stream.outputs.header chain netName w) outputs_fillsSlot (Nat.zero_lt_succ 112) rfl hfile
    exact .of_records hstream hlength
  · obtain ⟨body, hstream, hlength⟩ := fixedRecordFile_ok
      (h := Stream.spends.header chain netName w) spends_fillsSlot (Nat.zero_lt_succ 67) rfl hfile
    exact .of_records hstream hlength
  · refine ⟨_, metaFile_ok (h := Stream.blocks.header chain netName w) rfl rfl rfl hfile, ?_⟩
    intro hzero
    exact absurd (List.eq_nil_of_length_eq_zero hzero) hblocks

/-! ### They can be joined -/

variable {stream : Stream} {w : WorkerOutput} {workers : List WorkerOutput}
  {file : List UInt8} {files : List (List UInt8)}

/-- What the merge reads in a worker's header. -/
structure Stream.Reads (stream : Stream) (chain : ChainName) (netName : NetworkName)
    (w : WorkerOutput) (file : List UInt8) : Prop where
  whole : HEADER_SIZE ≤ file.length
  this : ThisHdr.ofHeader (file.take HEADER_SIZE) =
    ⟨Xdmp.asciiText stream.magic, CHAIN_CODES chain, NETWORK_CODES netName, stream.recordSize⟩
  first : firstHeightOf (file.take HEADER_SIZE) = w.firstHeight
  last : lastHeightOf (file.take HEADER_SIZE) = w.lastHeight
  count : recordCountOf (file.take HEADER_SIZE) = stream.count w
  empty : stream.count w = 0 → file.length = HEADER_SIZE

theorem Stream.Made.reads (hmade : stream.Made chain netName w file) :
    stream.Reads chain netName w file := by
  obtain ⟨body, ⟨hfits, rfl⟩, hempty⟩ := hmade
  have hheader := hfits.ofHeader_bytes 0
  have hlength := hfits.length_bytes
  have htake : ((stream.header chain netName w).bytes ++ body).take HEADER_SIZE = _ :=
    hfits.take_header
  constructor
  · rw [List.length_append, hlength]
    exact Nat.le_add_right _ _
  · rw [htake]
    exact congrArg (fun h : DatHeader => (⟨h.magic, h.chain, h.net, h.recordSize⟩ : ThisHdr)) hheader
  · rw [htake]
    exact congrArg DatHeader.firstHeight hheader
  · rw [htake]
    exact congrArg DatHeader.lastHeight hheader
  · rw [htake]
    exact congrArg DatHeader.recordCount hheader
  · intro hzero
    rw [hempty hzero, List.append_nil, hlength]
    rfl

theorem exists_of_mem_right {α β : Type} {R : α → β → Prop} {as : List α} {bs : List β} {b : β}
    (hall : List.Forall₂ R as bs) (hmem : b ∈ bs) : ∃ a ∈ as, R a b := by
  induction hall with
  | nil => cases hmem
  | @cons a b' as bs hab _ ih =>
      rcases List.mem_cons.mp hmem with rfl | hmem
      · exact ⟨a, List.mem_cons_self, hab⟩
      · obtain ⟨a', hmem', hrel⟩ := ih hmem
        exact ⟨a', List.mem_cons_of_mem _ hmem', hrel⟩

/-- A chain of the left elements is one of the right ones. -/
theorem isChain_right {α β : Type} {R : α → β → Prop} {S : α → α → Prop} {T : β → β → Prop}
    (hstep : ∀ a b a' b', R a b → R a' b' → S a a' → T b b') {as : List α} {bs : List β}
    (hall : List.Forall₂ R as bs) (hchain : as.IsChain S) : bs.IsChain T := by
  induction hall with
  | nil => exact .nil
  | @cons a b as bs hab hall ih =>
      cases hall with
      | nil => exact .singleton b
      | cons hab' hall =>
          obtain ⟨hnext, hrest⟩ := List.isChain_cons_cons.mp hchain
          exact List.isChain_cons_cons.mpr ⟨hstep _ _ _ _ hab hab' hnext, ih hrest⟩

theorem Stream.joinable (hne : workers ≠ [])
    (hcontiguous : workers.IsChain fun w next => next.firstHeight = w.lastHeight + 1)
    (hreads : List.Forall₂ (stream.Reads chain netName) workers files) :
    Joinable HEADER_SIZE files := by
  have hfile : ∀ file ∈ files, ∃ w ∈ workers, stream.Reads chain netName w file :=
    fun file hmem => exists_of_mem_right hreads hmem
  constructor
  · rintro rfl
    cases hreads
    exact hne rfl
  · intro file hmem
    obtain ⟨w, -, hw⟩ := hfile file hmem
    exact hw.whole
  · intro file hmem other hmem'
    obtain ⟨w, -, hw⟩ := hfile file hmem
    obtain ⟨w', -, hw'⟩ := hfile other hmem'
    rw [hw.this, hw'.this]
  · apply isChain_right _ hreads hcontiguous
    intro w file next other hw hnext hstep
    rw [hw.last, hnext.first, hstep]
  · intro file hmem hzero
    obtain ⟨w, -, hw⟩ := hfile file hmem
    rw [hw.count] at hzero
    exact hw.empty hzero

theorem Stream.totalRecordCount_eq
    (hreads : List.Forall₂ (stream.Reads chain netName) workers files) :
    totalRecordCount HEADER_SIZE files = (workers.map stream.count).sum := by
  induction hreads with
  | nil => rfl
  | cons hw _ ih =>
      rw [totalRecordCount] at ih ⊢
      rw [List.map_cons, List.map_cons, List.sum_cons, List.sum_cons, ih, hw.count]

/-! ### What the merge writes -/

theorem lastHeightOf_lt (hdrBuf : List UInt8) : lastHeightOf hdrBuf < 2 ^ 32 := by
  have hlt : lastHeightOf hdrBuf < 256 ^ (subarray hdrBuf 16 4).length := ofLE_lt _
  have hlength : (subarray hdrBuf 16 4).length ≤ 4 := by
    rw [subarray]
    exact List.length_take_le 4 _
  calc lastHeightOf hdrBuf < 256 ^ (subarray hdrBuf 16 4).length := hlt
    _ ≤ 256 ^ 4 := Nat.pow_le_pow_right (by decide) hlength
    _ = 2 ^ 32 := by decide

theorem maxLastHeight_lt (headerSize : Nat) (files : List (List UInt8)) :
    maxLastHeight headerSize files < 2 ^ 32 := by
  induction files with
  | nil => exact Nat.two_pow_pos 32
  | cons file rest ih => exact Nat.max_lt.mpr ⟨lastHeightOf_lt _, ih⟩

/-- **The concatenation's header** is the first worker's, with another last height and count. -/
theorem Stream.concatenation_eq
    (hmade : List.Forall₂ (stream.Made chain netName) (w :: workers) files)
    (hfits : totalRecordCount HEADER_SIZE files < 2 ^ 64) :
    StreamFile
      ((stream.header chain netName w).patch (maxLastHeight HEADER_SIZE files)
        (totalRecordCount HEADER_SIZE files))
      (files.flatMap fun file => file.drop HEADER_SIZE) (concatenation HEADER_SIZE files) := by
  cases hmade with
  | @cons _ file _ rest hfirst _ =>
      obtain ⟨body, hstream, -⟩ := hfirst
      have htake : file.take HEADER_SIZE = (stream.header chain netName w).bytes := by
        rw [hstream.eq, hstream.fits.take_header]
      refine ⟨hstream.fits.patch (maxLastHeight_lt HEADER_SIZE (file :: rest)) hfits, ?_⟩
      rw [concatenation, htake, StreamHeader.patched_bytes hstream.fits.length_magic]

theorem Stream.headerOf_concatenation
    (hmade : List.Forall₂ (stream.Made chain netName) workers files) (hne : workers ≠ [])
    (hfits : totalRecordCount HEADER_SIZE files < 2 ^ 64) :
    (headerOf (concatenation HEADER_SIZE files)).recordSize = stream.recordSize := by
  obtain ⟨w, rest, rfl⟩ := List.exists_cons_of_ne_nil hne
  obtain ⟨hfits', hfile⟩ := concatenation_eq hmade hfits
  rw [headerOf, hfile, hfits'.take_header, hfits'.ofHeader_bytes]
  rfl

/-! ### The directories -/

/-- A parsed file is no file of the merge directory. -/
theorem parsed_ne_merge (dirs : WorkDirs) (f rest : String) :
    dirs.parsed ++ "/" ++ f ≠ dirs.merge ++ rest := by
  intro heq
  have htext := congrArg String.toList heq
  rw [WorkDirs.parsed, WorkDirs.merge] at htext
  simp only [String.toList_append, List.append_assoc] at htext
  have hrest := List.append_cancel_left htext
  have hparsed : "/parsed".toList = ['/', 'p', 'a', 'r', 's', 'e', 'd'] := rfl
  have hmerge : "/merge".toList = ['/', 'm', 'e', 'r', 'g', 'e'] := rfl
  rw [hparsed, hmerge] at hrest
  simp at hrest

theorem Stream.found_ne {path : String} (hmem : path ∈ stream.found dirs names) (rest : String) :
    path ≠ dirs.merge ++ rest := by
  obtain ⟨f, -, rfl⟩ := List.mem_map.mp hmem
  exact parsed_ne_merge dirs f rest

/-- Only files of the merge directory changed. -/
def Outside (dirs : WorkDirs) (s s' : Disk) : Prop :=
  ∀ path, (∀ rest, path ≠ dirs.merge ++ rest) → s'.dir path = s.dir path

theorem Outside.trans {s₁ : Disk} (hfirst : Outside dirs s s₁) (hsecond : Outside dirs s₁ s') :
    Outside dirs s s' := fun path hpath => (hsecond path hpath).trans (hfirst path hpath)

theorem Outside.written (houtside : Outside dirs s s')
    (hwritten : stream.Written chain netName dirs names s workers) :
    stream.Written chain netName dirs names s' workers := by
  have hfound : ∀ path ∈ stream.found dirs names, s'.dir path = s.dir path :=
    fun path hmem => houtside path (Stream.found_ne hmem)
  unfold Stream.Written at hwritten ⊢
  generalize stream.found dirs names = paths at hwritten hfound
  induction hwritten with
  | nil => exact .nil
  | @cons path w paths workers hfile _ ih =>
      obtain ⟨file, hfile, hstream⟩ := hfile
      refine .cons ⟨file, ?_, hstream⟩ (ih ?_)
      · rw [hfound path List.mem_cons_self, hfile]
      · exact fun other hmem => hfound other (List.mem_cons_of_mem _ hmem)

/-- The contents of a stream's files. -/
theorem Stream.Written.contents (hmem : stream ∈ [Stream.outputs, .spends, .blocks])
    (hblocks : ∀ w ∈ workers, w.blocks ≠ [])
    (hwritten : stream.Written chain netName dirs names s workers) :
    ∃ files, Holds s (stream.found dirs names) files ∧
      List.Forall₂ (stream.Made chain netName) workers files := by
  unfold Stream.Written at hwritten
  generalize stream.found dirs names = paths at hwritten
  induction hwritten with
  | nil => exact ⟨[], .nil, .nil⟩
  | @cons path w paths workers hfile _ ih =>
      obtain ⟨hw, hrest⟩ := List.forall_mem_cons.mp hblocks
      obtain ⟨file, hfile, hstream⟩ := hfile
      obtain ⟨files, hholds, hmade⟩ := ih hrest
      exact ⟨file :: files, .cons hfile hholds, .cons (Stream.made hmem hw hstream) hmade⟩

/-! ### The merge -/

/-- One stream concatenated into the merge directory. -/
theorem concatStream_spec (hmem : stream ∈ [Stream.outputs, .spends, .blocks])
    (hparsed : ParsedBy chain netName dirs names s workers) (rest : String) :
    Ensures (concatFilesWithHeader faults wholeWrites (stream.found dirs names) (dirs.merge ++ rest)
        HEADER_SIZE) s
      (fun _ s' => Outside dirs s s' ∧ ∃ file, s'.dir (dirs.merge ++ rest) = some file ∧
        (headerOf file).recordSize = stream.recordSize)
      (fun _ _ => faults.Quiet → ¬stream.CountFits workers) := by
  have htmp : tmpOf (dirs.merge ++ rest) = dirs.merge ++ (rest ++ ".tmp") := String.append_assoc
  have hnot : tmpOf (dirs.merge ++ rest) ∉ stream.found dirs names := by
    intro hfound
    exact Stream.found_ne hfound (rest ++ ".tmp") htmp
  obtain ⟨files, hholds, hmade⟩ := (hparsed.written stream hmem).contents hmem hparsed.blocks
  have hreads : List.Forall₂ (stream.Reads chain netName) workers files :=
    hmade.imp fun _ _ => Stream.Made.reads
  apply (concatFilesWithHeader_wholeWrites (by decide) hnot).mono
  · rintro n s' ⟨files', hdone⟩
    obtain rfl := hholds.unique hdone.read
    constructor
    · intro path hpath
      exact hdone.others path (hpath rest) (htmp ▸ hpath (rest ++ ".tmp"))
    · exact ⟨_, hdone.output, Stream.headerOf_concatenation hmade hparsed.nonempty hdone.fits⟩
  · rintro e s' ⟨-, hrefused⟩ hquiet hfits
    apply hrefused hquiet
    refine ⟨files, hholds, Stream.joinable hparsed.nonempty hparsed.contiguous hreads, ?_⟩
    rw [Stream.totalRecordCount_eq hreads]
    exact hfits

theorem ParsedBy.outside (hparsed : ParsedBy chain netName dirs names s workers)
    (houtside : Outside dirs s s') : ParsedBy chain netName dirs names s' workers where
  nonempty := hparsed.nonempty
  blocks := hparsed.blocks
  contiguous := hparsed.contiguous
  written stream hmem := houtside.written (hparsed.written stream hmem)

/-- **The merge** reuses the three files of the run, or writes a block stream of record size 0. -/
theorem concatOrReuse_spec {args : RunArgs} {codes : UInt8 × UInt8}
    (hcodes : networkToCodes args.network = .ok codes)
    (hparsed : ParsedBy chain netName dirs names s workers) :
    Ensures (concatOrReuse faults args dirs names) s
      (fun reused s' => (reused = true ∧ Reusable args dirs s) ∨ (reused = false ∧
        ∃ file, s'.dir dirs.allMeta = some file ∧ (headerOf file).recordSize = 0))
      (fun _ _ => faults.Quiet →
        ∃ stream ∈ [Stream.outputs, .spends, .blocks], ¬stream.CountFits workers) := by
  apply concatReusableForRun_spec.bind_mono
  · rintro e s₁ ⟨-, hnot⟩
    exact absurd hcodes (hnot codes)
  rintro reusable s₁ ⟨hsame, hreusable, -⟩
  split_ifs with htrue
  · have hrun := hreusable htrue
    obtain ⟨_, _, _, _, -, hout, hspd, -⟩ := hrun
    have hstat {path : String} {s₂ : Disk} (hexists : (s₂.dir path).isSome) :
        Ensures (statSync faults path) s₂ (fun _ s' => s'.dir = s₂.dir)
          (fun _ _ => faults.Quiet →
            ∃ stream ∈ [Stream.outputs, .spends, .blocks], ¬stream.CountFits workers) := by
      apply statSync_spec.mono (fun _ _ hstat => hstat.1.dir)
      rintro e s₃ ⟨-, hmissing⟩ hquiet
      rw [hmissing hquiet] at hexists
      cases hexists
    apply (hstat (hsame ▸ hout.isSome)).bind
    intro _ s₂ hsame₂
    apply (hstat ((hsame₂.trans hsame) ▸ hspd.isSome)).bind
    intro _ s₃ _
    exact .pure (.inl ⟨rfl, hreusable htrue⟩)
  · have hparsed₁ : ParsedBy chain netName dirs names s₁ workers :=
      hparsed.outside fun path _ => congrFun hsame path
    have hrefused {stream : Stream} (hmem : stream ∈ [Stream.outputs, .spends, .blocks])
        (e : ConcatError) (s' : Disk) (hfits : faults.Quiet → ¬stream.CountFits workers) :
        faults.Quiet → ∃ stream ∈ [Stream.outputs, .spends, .blocks], ¬stream.CountFits workers :=
      fun hquiet => ⟨stream, hmem, hfits hquiet⟩
    have houtputs : Stream.outputs ∈ [Stream.outputs, .spends, .blocks] := List.mem_cons_self
    have hspends : Stream.spends ∈ [Stream.outputs, .spends, .blocks] :=
      List.mem_cons_of_mem _ List.mem_cons_self
    have hblocks : Stream.blocks ∈ [Stream.outputs, .spends, .blocks] :=
      List.mem_cons_of_mem _ (List.mem_cons_of_mem _ List.mem_cons_self)
    apply (concatStream_spec houtputs hparsed₁ "/all-outputs.dat").bind_mono (hrefused houtputs)
    rintro _ s₂ ⟨houtside₂, -⟩
    have hparsed₂ := hparsed₁.outside houtside₂
    apply (concatStream_spec hspends hparsed₂ "/all-spends.dat").bind_mono (hrefused hspends)
    rintro _ s₃ ⟨houtside₃, -⟩
    have hparsed₃ := hparsed₂.outside houtside₃
    apply (concatStream_spec hblocks hparsed₃ "/all-meta.dat").bind_mono (hrefused hblocks)
    rintro _ s₄ ⟨-, file, hfile, hsize⟩
    exact .pure (.inr ⟨rfl, file, hfile, hsize⟩)

/-- The files at hand are reused. -/
def Accepts (faults : Faults) (args : RunArgs) (dirs : WorkDirs) (s : Disk) : Prop :=
  ∃ s', concatReusableForRun faults args dirs s = .ok true s'

theorem Accepts.reusable {args : RunArgs} (haccepts : Accepts faults args dirs s) :
    Reusable args dirs s := by
  obtain ⟨s', hrun⟩ := haccepts
  have hspec : Ensures (concatReusableForRun faults args dirs) s _ _ := concatReusableForRun_spec
  unfold Ensures at hspec
  rw [hrun] at hspec
  exact hspec.2.1 rfl

/-- A block stream of record size 0 is never reused. -/
theorem not_accepts_of_recordSize {args : RunArgs} {file : List UInt8}
    (hfile : s.dir dirs.allMeta = some file) (hsize : (headerOf file).recordSize = 0) :
    ¬Accepts faults args dirs s := by
  intro haccepts
  obtain ⟨_, _, _, metaH, -, -, -, ⟨⟨file', hfile', -, rfl⟩, hbelongs⟩, -⟩ := haccepts.reusable
  rw [hfile, Option.some.injEq] at hfile'
  exact hbelongs.fixed (hfile' ▸ hsize)

/-- The network of a run. -/
def networkOf (chain : ChainName) (netName : NetworkName) : String :=
  chain.text ++ "-" ++ netName.text

theorem networkToCodes_networkOf (chain : ChainName) (netName : NetworkName) :
    networkToCodes (networkOf chain netName) = .ok (CHAIN_CODES chain, NETWORK_CODES netName) := by
  cases chain
  all_goals cases netName
  all_goals decide

/-- **No files that the merge wrote are reused.** Whatever is accepted belongs to the run; without a
fault the merge succeeds as long as the counts fit; and the files it wrote are refused, whatever the
run. -/
theorem written_files_never_reused (faults : Faults) (chain : ChainName) (netName : NetworkName)
    (fromHeight : Nat) (toHeight : Option Nat) (dirs : WorkDirs) (names : List String) (s : Disk)
    (workers : List WorkerOutput) (hparsed : ParsedBy chain netName dirs names s workers) :
    (∀ s', Accepts faults ⟨networkOf chain netName, fromHeight, toHeight⟩ dirs s' →
      Reusable ⟨networkOf chain netName, fromHeight, toHeight⟩ dirs s') ∧
    Ensures (concatOrReuse faults ⟨networkOf chain netName, fromHeight, toHeight⟩ dirs names) s
      (fun reused s' =>
        (reused = true ∧ Reusable ⟨networkOf chain netName, fromHeight, toHeight⟩ dirs s) ∨
        (reused = false ∧ ∀ faults',
          ¬Accepts faults' ⟨networkOf chain netName, fromHeight, toHeight⟩ dirs s'))
      (fun _ _ => faults.Quiet →
        ∃ stream ∈ [Stream.outputs, .spends, .blocks], ¬stream.CountFits workers) := by
  constructor
  · intro s' haccepts
    exact haccepts.reusable
  · have hcodes : networkToCodes (RunArgs.mk (networkOf chain netName) fromHeight toHeight).network =
        .ok (CHAIN_CODES chain, NETWORK_CODES netName) := networkToCodes_networkOf chain netName
    apply (concatOrReuse_spec hcodes hparsed).mono
    · rintro reused s' (hreused | ⟨rfl, file, hfile, hsize⟩)
      · exact .inl hreused
      · exact .inr ⟨rfl, fun faults' => not_accepts_of_recordSize hfile hsize⟩
    · exact fun _ _ hfits => hfits

/-! ### A run of one block -/

/-- A worker that parsed one block with a single output. -/
def oneBlock : WorkerOutput where
  firstHeight := 0
  lastHeight := 0
  outputs := [⟨alloc 32, 0, .bigint 50, 0, alloc 32, alloc 32, true⟩]
  spends := []
  blocks := [⟨0, 0, .replicate 32 0, .replicate 32 0, [.replicate 32 0]⟩]

def oneBlockNames : List String :=
  ["outputs-h00000000-h00000000.dat", "spends-h00000000-h00000000.dat",
    "meta-h00000000-h00000000.dat"]

/-- The parsed directory of that worker. -/
def oneBlockDisk (outputsBytes spendsBytes metaBytes : List UInt8) : Disk where
  dir path :=
    if path = "out/parsed/outputs-h00000000-h00000000.dat" then some outputsBytes
    else if path = "out/parsed/spends-h00000000-h00000000.dat" then some spendsBytes
    else if path = "out/parsed/meta-h00000000-h00000000.dat" then some metaBytes
    else none
  calls := 0

theorem exists_outputsFile_oneBlock :
    ∃ file, Stream.outputs.file .bitcoin .regtest oneBlock = .ok file := by
  apply exists_fixedRecordFile (h := Stream.outputs.header .bitcoin .regtest oneBlock)
    outputs_fillsSlot (Nat.zero_lt_succ 112)
  · constructor
    all_goals decide
  · rfl
  · intro call hmem slot hslot
    rw [List.mem_singleton.mp hmem]
    have hwf : OutputsAppend.WellFormed ⟨alloc 32, 0, .bigint 50, 0, alloc 32, alloc 32, true⟩
        ⟨50, by decide, 0, by decide, by decide, alloc 32, length_alloc 32, true⟩ :=
      ⟨rfl, rfl, rfl, length_alloc 32, length_alloc 32, rfl⟩
    exact ⟨_, hwf.pack_eq hslot⟩

theorem exists_spendsFile_oneBlock :
    ∃ file, Stream.spends.file .bitcoin .regtest oneBlock = .ok file := by
  apply exists_fixedRecordFile (h := Stream.spends.header .bitcoin .regtest oneBlock)
    spends_fillsSlot (Nat.zero_lt_succ 67)
  · constructor
    all_goals decide
  · rfl
  · intro call hmem
    cases hmem

theorem exists_metaFile_oneBlock :
    ∃ file, Stream.blocks.file .bitcoin .regtest oneBlock = .ok file := by
  apply exists_metaFile (h := Stream.blocks.header .bitcoin .regtest oneBlock) rfl rfl
  · constructor
    all_goals decide
  · rfl

/-- A single name with the start and the end is found. -/
theorem findFiles_of_filter {dir start stop : String} {names : List String} (name : String)
    (hfilter : (names.filter fun f => start.toList.isPrefixOf f.toList &&
      stop.toList.isSuffixOf f.toList) = [name]) :
    findFiles names dir start stop = [dir ++ "/" ++ name] := by
  rw [findFiles, hfilter, List.mergeSort_singleton, List.map_singleton]

theorem exists_parsedBy_oneBlock :
    ∃ s, ParsedBy .bitcoin .regtest ⟨"out"⟩ oneBlockNames s [oneBlock] ∧
      s.dir (WorkDirs.allOutputs ⟨"out"⟩) = none := by
  obtain ⟨outputsBytes, houtputs⟩ := exists_outputsFile_oneBlock
  obtain ⟨spendsBytes, hspends⟩ := exists_spendsFile_oneBlock
  obtain ⟨metaBytes, hmeta⟩ := exists_metaFile_oneBlock
  refine ⟨oneBlockDisk outputsBytes spendsBytes metaBytes,
    ⟨List.cons_ne_nil _ _, ?_, .singleton _, ?_⟩, rfl⟩
  · intro w hmem
    rw [List.mem_singleton.mp hmem]
    exact List.cons_ne_nil _ _
  · intro stream hmem
    simp only [List.mem_cons, List.not_mem_nil, or_false] at hmem
    rcases hmem with rfl | rfl | rfl
    · have hfound : Stream.outputs.found ⟨"out"⟩ oneBlockNames = [_] :=
        findFiles_of_filter "outputs-h00000000-h00000000.dat" (by decide)
      rw [Stream.Written, hfound]
      exact .cons ⟨outputsBytes, rfl, houtputs⟩ .nil
    · have hfound : Stream.spends.found ⟨"out"⟩ oneBlockNames = [_] :=
        findFiles_of_filter "spends-h00000000-h00000000.dat" (by decide)
      rw [Stream.Written, hfound]
      exact .cons ⟨spendsBytes, rfl, hspends⟩ .nil
    · have hfound : Stream.blocks.found ⟨"out"⟩ oneBlockNames = [_] :=
        findFiles_of_filter "meta-h00000000-h00000000.dat" (by decide)
      rw [Stream.Written, hfound]
      exact .cons ⟨metaBytes, rfl, hmeta⟩ .nil

/-- The run of one block: its files are merged and then refused. -/
theorem written_files_never_reused_one_block :
    ∃ s, ParsedBy .bitcoin .regtest ⟨"out"⟩ oneBlockNames s [oneBlock] ∧
      Ensures (concatOrReuse noFaults ⟨networkOf .bitcoin .regtest, 0, some 0⟩ ⟨"out"⟩
          oneBlockNames) s
        (fun reused s' =>
          (reused = true ∧ Reusable ⟨networkOf .bitcoin .regtest, 0, some 0⟩ ⟨"out"⟩ s) ∨
          (reused = false ∧ ∀ faults',
            ¬Accepts faults' ⟨networkOf .bitcoin .regtest, 0, some 0⟩ ⟨"out"⟩ s'))
        (fun _ _ => noFaults.Quiet →
          ∃ stream ∈ [Stream.outputs, .spends, .blocks], ¬stream.CountFits [oneBlock]) := by
  obtain ⟨s, hparsed, -⟩ := exists_parsedBy_oneBlock
  have hall := written_files_never_reused noFaults .bitcoin .regtest 0 (some 0) ⟨"out"⟩ oneBlockNames
    s [oneBlock] hparsed
  exact ⟨s, hparsed, hall.2⟩

/-- The files of that run are not accepted right after they were written for it. -/
theorem one_block_not_reused :
    ∃ s s', ParsedBy .bitcoin .regtest ⟨"out"⟩ oneBlockNames s [oneBlock] ∧
      concatOrReuse noFaults ⟨networkOf .bitcoin .regtest, 0, some 0⟩ ⟨"out"⟩ oneBlockNames s =
        .ok false s' ∧
      ¬Accepts noFaults ⟨networkOf .bitcoin .regtest, 0, some 0⟩ ⟨"out"⟩ s' := by
  obtain ⟨s, hparsed, hnone⟩ := exists_parsedBy_oneBlock
  have hcodes : networkToCodes (RunArgs.mk (networkOf .bitcoin .regtest) 0 (some 0)).network =
      .ok (CHAIN_CODES .bitcoin, NETWORK_CODES .regtest) := networkToCodes_networkOf _ _
  have hspec : Ensures (concatOrReuse noFaults ⟨networkOf .bitcoin .regtest, 0, some 0⟩ ⟨"out"⟩
    oneBlockNames) s _ _ := concatOrReuse_spec hcodes hparsed
  have hsucceeds := hspec.succeeds fun e s' hthrows => by
    obtain ⟨stream, hmem, hfits⟩ := hthrows noFaults_quiet
    simp only [List.mem_cons, List.not_mem_nil, or_false] at hmem
    apply hfits
    rcases hmem with rfl | rfl | rfl
    all_goals decide
  obtain ⟨reused, s', hrun⟩ := hsucceeds
  unfold Ensures at hspec
  rw [hrun] at hspec
  rcases hspec with ⟨-, hreusable⟩ | ⟨rfl, file, hfile, hsize⟩
  · obtain ⟨_, _, _, _, -, ⟨⟨file, hfile, -⟩, -⟩, -⟩ := hreusable
    rw [hnone] at hfile
    cases hfile
  · exact ⟨s, s', hparsed, hrun, not_accepts_of_recordSize hfile hsize⟩

end UtxoTracker.DatFiles

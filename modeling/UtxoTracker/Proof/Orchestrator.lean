import UtxoTracker.Bulk.Orchestrator
import UtxoTracker.Proof.MergeDir
/-!
# What a run makes of its leftovers

The dump phase and the parse phase of a run whose leftovers are harmless end in the files of its own
chunks, in whatever order the workers take their steps.
-/

namespace UtxoTracker

open Bulk

namespace Bulk

/-! ### The chunks of a run -/

section Chunks

variable {network : Network} {chain : Chain} {piece other : Nat × Nat}

/-- A piece within the chain. -/
structure Within (chain : Chain) (piece : Nat × Nat) : Prop where
  le : piece.1 ≤ piece.2
  lt : piece.2 < chain.length

theorem Within.length_chunkOf (hwithin : Within chain piece) :
    (chunkOf chain piece.1 piece.2).blocks.length = piece.2 + 1 - piece.1 := by
  have hle := hwithin.le
  have hlt := hwithin.lt
  rw [chunkOf, List.length_take, List.length_drop, List.length_reverse]
  omega

theorem Within.lastHeight_chunkOf (hwithin : Within chain piece) :
    (chunkOf chain piece.1 piece.2).lastHeight = piece.2 := by
  have hle := hwithin.le
  have hfirst : (chunkOf chain piece.1 piece.2).firstHeight = piece.1 := rfl
  rw [Dump.lastHeight, hwithin.length_chunkOf, hfirst]
  omega

theorem Within.chunkOf_of (hwithin : Within chain piece) :
    (chunkOf chain piece.1 piece.2).Of chain := by
  have hle := hwithin.le
  have hlength := hwithin.length_chunkOf
  constructor
  · apply List.ne_nil_of_length_pos
    omega
  · rw [hlength]
    rfl

theorem Within.name_chunkOf (hwithin : Within chain piece) :
    (ChunkFile.mk network (chunkOf chain piece.1 piece.2)).name =
      (network, piece.1, piece.2) := by
  rw [ChunkFile.name, hwithin.lastHeight_chunkOf]
  rfl

end Chunks

/-! ### The range of a run -/

theorem resolveDumpEnd_bounds {args : DumpRangeArgs} {tip dumpEnd : Int} {undoBlocks : Nat}
    (hvalid : validateRange args = .ok ())
    (hresolve : resolveDumpEnd args tip undoBlocks = .ok dumpEnd) :
    0 ≤ args.start ∧ args.start ≤ dumpEnd ∧ dumpEnd ≤ tip := by
  unfold validateRange at hvalid
  split_ifs at hvalid with hstart hboth horder hsize hsafety
  unfold resolveDumpEnd at hresolve
  cases hlast : args.last with
  | some last =>
      rw [hlast] at hresolve horder
      dsimp only at hresolve
      split_ifs at hresolve with hbeyond
      obtain ⟨-, -, hresult⟩ := Fallible.bind_eq_ok_iff.mp hresolve
      obtain rfl := Except.ok.inj hresult
      have hle : ¬ last < args.start := by simpa using horder
      omega
  | none =>
      rw [hlast] at hresolve
      dsimp only at hresolve
      split_ifs at hresolve with hbefore
      obtain rfl := Except.ok.inj hresolve
      omega

theorem dumpRange_bounds {args : RangeArgs} {tip start dumpEnd : Int} {undoBlocks : Nat}
    (hrange : dumpRange args tip undoBlocks = .ok (start, dumpEnd)) :
    0 ≤ start ∧ start ≤ dumpEnd ∧ dumpEnd ≤ tip := by
  obtain ⟨⟨⟩, hvalid, hrange⟩ := Fallible.bind_eq_ok_iff.mp hrange
  obtain ⟨resolved, hresolve, hresult⟩ := Fallible.bind_eq_ok_iff.mp hrange
  obtain ⟨rfl, rfl⟩ := Prod.mk.inj (Except.ok.inj hresult)
  exact resolveDumpEnd_bounds hvalid hresolve

section Range

variable {args : SeedArgs} {chain : Chain} {start dumpEnd : Int}

theorem SeedArgs.pieces_within (hrange : dumpRange args.range (chain.length - 1)
      args.opts.undoBlocks = .ok (start, dumpEnd)) :
    ∀ piece ∈ args.pieces start dumpEnd, Within chain piece := by
  intro piece hmem
  obtain ⟨hstart, hle, htip⟩ := dumpRange_bounds hrange
  obtain ⟨-, hpiece, hlast⟩ := RangeLoop.mem_pieces hmem
  exact ⟨hpiece, by omega⟩

theorem SeedArgs.pieces_nodup (args : SeedArgs) (start dumpEnd : Int) :
    (args.pieces start dumpEnd).Nodup := by
  refine RangeLoop.pieces_pairwise.imp_of_mem ?_
  rintro piece _ hmem - hlt rfl
  obtain ⟨-, hle, -⟩ := RangeLoop.mem_pieces hmem
  exact absurd hlt hle.not_gt

theorem SeedArgs.chunks_of (hrange : dumpRange args.range (chain.length - 1)
      args.opts.undoBlocks = .ok (start, dumpEnd)) :
    ∀ chunk ∈ args.chunks chain start dumpEnd, chunk.Of chain := by
  rw [SeedArgs.chunks, List.forall_mem_map]
  exact fun piece hmem => (args.pieces_within hrange piece hmem).chunkOf_of

theorem SeedArgs.chunks_nodup (hrange : dumpRange args.range (chain.length - 1)
      args.opts.undoBlocks = .ok (start, dumpEnd)) :
    (args.chunks chain start dumpEnd).Nodup := by
  have hwithin := args.pieces_within hrange
  refine (args.pieces_nodup start dumpEnd).map_on ?_
  intro piece hpiece other hother heq
  have hlast := congrArg Dump.lastHeight heq
  rw [(hwithin piece hpiece).lastHeight_chunkOf, (hwithin other hother).lastHeight_chunkOf] at hlast
  exact Prod.ext (congrArg Dump.firstHeight heq) hlast

end Range

/-! ### The dump phase -/

section Dump

variable {network : Network} {chain : Chain} {left dumps : List ChunkFile}
  {done pieces : List (Nat × Nat)} {piece : Nat × Nat}

/-- The directory after some chunks: theirs, and what was left under other names. -/
structure DumpInv (network : Network) (chain : Chain) (left : List ChunkFile)
    (done : List (Nat × Nat)) (dumps : List ChunkFile) : Prop where
  written : ∀ piece ∈ done, ChunkFile.mk network (chunkOf chain piece.1 piece.2) ∈ dumps
  rest : ∀ file ∈ dumps, (∃ piece ∈ done, file = ⟨network, chunkOf chain piece.1 piece.2⟩) ∨
    file ∈ left ∧ ∀ piece ∈ done, file.name ≠ (network, piece.1, piece.2)
  nodup : (dumps.map ChunkFile.name).Nodup

theorem eq_of_name_eq (hnodup : (dumps.map ChunkFile.name).Nodup) {file other : ChunkFile}
    (hfile : file ∈ dumps) (hother : other ∈ dumps) (heq : file.name = other.name) :
    file = other :=
  List.inj_on_of_nodup_map hnodup hfile hother heq

/-- A file of the next chunk's name was left there. -/
theorem DumpInv.left_of_name (hinv : DumpInv network chain left done dumps) (hnew : piece ∉ done)
    (hdone : ∀ other ∈ done, Within chain other) {file : ChunkFile} (hfile : file ∈ dumps)
    (hname : file.name = (network, piece.1, piece.2)) : file ∈ left := by
  rcases hinv.rest file hfile with ⟨other, hother, rfl⟩ | ⟨hleft, -⟩
  · rw [(hdone other hother).name_chunkOf] at hname
    have heq : other = piece := (Prod.mk.inj hname).2
    exact absurd (heq ▸ hother) hnew
  · exact hleft

/-- A file of another name than the next chunk's stays what it was. -/
theorem DumpInv.rest_of_ne (hinv : DumpInv network chain left done dumps) {file : ChunkFile}
    (hfile : file ∈ dumps) (hne : file.name ≠ (network, piece.1, piece.2)) :
    (∃ other ∈ done ++ [piece], file = ⟨network, chunkOf chain other.1 other.2⟩) ∨
      file ∈ left ∧ ∀ other ∈ done ++ [piece], file.name ≠ (network, other.1, other.2) := by
  refine (hinv.rest file hfile).imp ?_ ?_
  · rintro ⟨other, hother, rfl⟩
    exact ⟨other, List.mem_append_left _ hother, rfl⟩
  · rintro ⟨hleft, hnames⟩
    refine ⟨hleft, fun other hother => ?_⟩
    rcases List.mem_append.mp hother with hother | hother
    · exact hnames other hother
    · exact List.mem_singleton.mp hother ▸ hne

theorem DumpInv.keep (hinv : DumpInv network chain left done dumps) (hwithin : Within chain piece)
    (hmem : ⟨network, chunkOf chain piece.1 piece.2⟩ ∈ dumps) :
    DumpInv network chain left (done ++ [piece]) dumps where
  written := by
    intro other hother
    rcases List.mem_append.mp hother with hother | hother
    · exact hinv.written other hother
    · obtain rfl := List.mem_singleton.mp hother
      exact hmem
  rest := by
    intro file hfile
    by_cases heq : file.name = (network, piece.1, piece.2)
    · refine .inl ⟨piece, List.mem_append_right _ (List.mem_singleton_self _), ?_⟩
      exact eq_of_name_eq hinv.nodup hfile hmem (heq.trans hwithin.name_chunkOf.symm)
    · exact hinv.rest_of_ne hfile heq
  nodup := hinv.nodup

theorem DumpInv.place (hinv : DumpInv network chain left done dumps) (hwithin : Within chain piece)
    (hnew : piece ∉ done) (hdone : ∀ other ∈ done, Within chain other) :
    DumpInv network chain left (done ++ [piece])
      (⟨network, chunkOf chain piece.1 piece.2⟩ ::
        dumps.filter fun file => decide (file.name ≠ (network, piece.1, piece.2))) where
  written := by
    intro other hother
    rcases List.mem_append.mp hother with hother | hother
    · apply List.mem_cons_of_mem
      rw [List.mem_filter]
      refine ⟨hinv.written other hother, decide_eq_true ?_⟩
      rw [(hdone other hother).name_chunkOf]
      intro heq
      have hpiece : other = piece := (Prod.mk.inj heq).2
      exact hnew (hpiece ▸ hother)
    · obtain rfl := List.mem_singleton.mp hother
      exact List.mem_cons_self
  rest := by
    intro file hfile
    rcases List.mem_cons.mp hfile with rfl | hfile
    · exact .inl ⟨piece, List.mem_append_right _ (List.mem_singleton_self _), rfl⟩
    · obtain ⟨hfile, hnamed⟩ := List.mem_filter.mp hfile
      exact hinv.rest_of_ne hfile (of_decide_eq_true hnamed)
  nodup := by
    rw [List.map_cons, List.nodup_cons]
    constructor
    · rw [List.mem_map]
      rintro ⟨file, hfile, heq⟩
      rw [hwithin.name_chunkOf] at heq
      exact of_decide_eq_true (List.mem_filter.mp hfile).2 heq
    · exact hinv.nodup.sublist (List.filter_sublist.map _)

/-- A chunk is kept only when it is the chain's. -/
theorem DumpInv.dumpChunk (hinv : DumpInv network chain left done dumps)
    (hwithin : Within chain piece) (hnew : piece ∉ done)
    (hdone : ∀ other ∈ done, Within chain other)
    (hkept : ∀ file ∈ left, file.name = (network, piece.1, piece.2) →
      existingChunkMatchesChain chain file piece.2 = true →
        file.dump = chunkOf chain piece.1 piece.2) :
    DumpInv network chain left (done ++ [piece])
      (dumpChunk network chain piece.1 piece.2 dumps) := by
  unfold Bulk.dumpChunk
  dsimp only
  split_ifs with hstays
  · obtain ⟨⟨network', dump⟩, hmem, hmatches⟩ := List.any_eq_true.mp hstays
    rw [Bool.and_eq_true, decide_eq_true_eq] at hmatches
    obtain ⟨hname, hmatches⟩ := hmatches
    obtain rfl : network' = network := (Prod.mk.inj hname).1
    have hdump : dump = chunkOf chain piece.1 piece.2 :=
      hkept _ (hinv.left_of_name hnew hdone hmem hname) hname hmatches
    exact hinv.keep hwithin (hdump ▸ hmem)
  · exact hinv.place hwithin hnew hdone

theorem DumpInv.dumpChunks (hinv : DumpInv network chain left done dumps)
    (hpieces : (done ++ pieces).Nodup) (hwithin : ∀ piece ∈ done ++ pieces, Within chain piece)
    (hkept : ∀ piece ∈ pieces, ∀ file ∈ left, file.name = (network, piece.1, piece.2) →
      existingChunkMatchesChain chain file piece.2 = true →
        file.dump = chunkOf chain piece.1 piece.2) :
    DumpInv network chain left (done ++ pieces) (dumpChunks network chain pieces dumps) := by
  induction pieces generalizing done dumps with
  | nil => rwa [List.append_nil]
  | cons piece rest ih =>
      have hnext := hinv.dumpChunk
        (hwithin piece (List.mem_append_right _ List.mem_cons_self))
        (fun hmem => List.disjoint_of_nodup_append hpieces hmem List.mem_cons_self)
        (fun other hother => hwithin other (List.mem_append_left _ hother))
        (hkept piece List.mem_cons_self)
      rw [List.append_cons] at hpieces hwithin ⊢
      exact ih hnext hpieces hwithin
        fun other hother => hkept other (List.mem_cons_of_mem _ hother)

end Dump

/-! ### The streams of a parse -/

section Stream

variable {ρ : Type} {files : List (DatFile ρ)} {file other : DatFile ρ} {path : String}

theorem nodup_renameInto (hnodup : (files.map DatFile.path).Nodup) :
    ((renameInto files file).map DatFile.path).Nodup := by
  rw [renameInto, List.map_cons, List.nodup_cons]
  constructor
  · rw [List.mem_map]
    rintro ⟨other, hother, heq⟩
    exact of_decide_eq_true (List.mem_filter.mp hother).2 heq
  · exact hnodup.sublist (List.filter_sublist.map _)

theorem mem_renameInto_of_ne (hmem : other ∈ files) (hne : other.path ≠ file.path) :
    other ∈ renameInto files file :=
  List.mem_cons_of_mem _ (List.mem_filter.mpr ⟨hmem, decide_eq_true hne⟩)

/-- A file closed under another name leaves what a worker finds. -/
theorem existingDat_renameInto (hne : path ≠ file.path) :
    existingDatLooksComplete (renameInto files file) path =
      existingDatLooksComplete files path := by
  have hfind : (renameInto files file).find? (fun other => decide (other.path = path)) =
      files.find? fun other => decide (other.path = path) := by
    rw [renameInto, List.find?_cons_of_neg (by simpa using hne.symm), List.find?_filter]
    refine congrArg (fun p => List.find? p files) (funext fun other => ?_)
    by_cases heq : other.path = path
    · simp [heq, hne]
    · simp [heq]
  unfold existingDatLooksComplete
  rw [hfind]

theorem pairwise_findFiles (files : List (DatFile ρ)) :
    (findFiles files).Pairwise fun file other => file.path ≤ other.path := by
  have htrans : ∀ file other next : DatFile ρ, decide (file.path ≤ other.path) = true →
      decide (other.path ≤ next.path) = true → decide (file.path ≤ next.path) = true := by
    intro file other next hle hle'
    exact decide_eq_true (String.le_trans (of_decide_eq_true hle) (of_decide_eq_true hle'))
  have htotal : ∀ file other : DatFile ρ,
      (decide (file.path ≤ other.path) || decide (other.path ≤ file.path)) = true := by
    intro file other
    rw [Bool.or_eq_true, decide_eq_true_eq, decide_eq_true_eq]
    exact String.le_total _ _
  apply (List.pairwise_mergeSort htrans htotal files).imp
  intro file other hle
  exact of_decide_eq_true hle

/-- Directories of the same files are listed in the same way. -/
theorem findFiles_eq {others : List (DatFile ρ)} (hnodup : (files.map DatFile.path).Nodup)
    (hnodup' : (others.map DatFile.path).Nodup) (hmem : ∀ file, file ∈ files ↔ file ∈ others) :
    findFiles files = findFiles others := by
  have hperm : files.Perm others :=
    (List.perm_ext_iff_of_nodup (List.Nodup.of_map _ hnodup) (List.Nodup.of_map _ hnodup')).mpr hmem
  have hlisted : (findFiles files).Perm (findFiles others) :=
    ((List.mergeSort_perm _ _).trans hperm).trans (List.mergeSort_perm _ _).symm
  refine hlisted.eq_of_pairwise ?_ (pairwise_findFiles files) (pairwise_findFiles others)
  intro file other hfile hother hle hge
  exact List.inj_on_of_nodup_map hnodup (mem_findFiles.mp hfile)
    ((hmem other).mpr (mem_findFiles.mp hother)) (String.le_antisymm hle hge)

/-- The files of a stream while the chunks are parsed: no two of one name, and each named after a
chunk. -/
structure StreamInv (write : Dump → DatFile ρ) (chunks : List Dump) (files : List (DatFile ρ)) :
    Prop where
  nodup : (files.map DatFile.path).Nodup
  named : ∀ file ∈ files, ∃ chunk ∈ chunks, file.path = (write chunk).path

variable {write : Dump → DatFile ρ} {chunks : List Dump} {chunk next : Dump}

theorem StreamInv.close (hinv : StreamInv write chunks files) (hchunk : chunk ∈ chunks) :
    StreamInv write chunks (renameInto files (write chunk)) where
  nodup := nodup_renameInto hinv.nodup
  named := by
    intro file hfile
    rcases List.mem_cons.mp hfile with rfl | hfile
    · exact ⟨chunk, hchunk, rfl⟩
    · exact hinv.named file (List.mem_filter.mp hfile).1

theorem mem_renameInto (hpath : (write next).path = (write chunk).path → next = chunk)
    (hmem : write next ∈ files) : write next ∈ renameInto files (write chunk) := by
  by_cases heq : (write next).path = (write chunk).path
  · rw [hpath heq]
    exact List.mem_cons_self
  · exact mem_renameInto_of_ne hmem heq

/-- A stream that has every chunk's file is listed as those. -/
theorem StreamInv.listed (hinv : StreamInv write chunks files)
    (hpresent : ∀ chunk ∈ chunks, write chunk ∈ files)
    (hnodup : ((chunks.map write).map DatFile.path).Nodup) :
    findFiles files = findFiles (chunks.map write) := by
  apply findFiles_eq hinv.nodup hnodup
  intro file
  rw [List.mem_map]
  constructor
  · intro hfile
    obtain ⟨chunk, hchunk, hpath⟩ := hinv.named file hfile
    refine ⟨chunk, hchunk, ?_⟩
    exact List.inj_on_of_nodup_map hinv.nodup (hpresent chunk hchunk) hfile hpath.symm
  · rintro ⟨chunk, hchunk, rfl⟩
    exact hpresent chunk hchunk

end Stream

/-! ### The parse phase -/

/-- The file of a chunk that is closed at this point is there. -/
def Present (network : Network) (parsed : ParsedFiles) (chunk : Dump) : Closing → Prop
  | .outputs => parseOutputs network chunk ∈ parsed.outputs
  | .spends => parseSpends network chunk ∈ parsed.spends
  | .blocks => parseMeta network chunk ∈ parsed.blocks

/-- The files that a worker has closed before its next one, or when it is done. -/
def closedBefore : Option Closing → List Closing
  | some .outputs => []
  | some .spends => [.outputs]
  | some .blocks => [.outputs, .spends]
  | none => [.outputs, .spends, .blocks]

theorem closedBefore_next (closing : Closing) :
    closedBefore closing.next = closedBefore (some closing) ++ [closing] := by
  cases closing with
  | outputs => rfl
  | spends => rfl
  | blocks => rfl

def Finished (network : Network) (parsed : ParsedFiles) (chunk : Dump) (upTo : Option Closing) :
    Prop :=
  ∀ closing ∈ closedBefore upTo, Present network parsed chunk closing

section Close

variable {network : Network} {chain : Chain} {parsed : ParsedFiles} {chunk other : Dump}
  {closing : Closing} {upTo : Option Closing}

theorem Dump.Of.eq_of_path {magic : Magic} (hchunk : chunk.Of chain) (hother : other.Of chain)
    (heq : outPath magic other.firstHeight other.lastHeight =
      outPath magic chunk.firstHeight chunk.lastHeight) : other = chunk := by
  obtain ⟨hfirst, hlast⟩ := outPath_inj heq
  exact hother.eq hchunk hfirst hlast

theorem Present.close (hpresent : Present network parsed other closing) (hchunk : chunk.Of chain)
    (hother : other.Of chain) (now : Closing) :
    Present network (parsed.close ⟨network, chunk⟩ now) other closing := by
  have hpath : ∀ magic, outPath magic other.firstHeight other.lastHeight =
      outPath magic chunk.firstHeight chunk.lastHeight → other = chunk :=
    fun _ heq => hchunk.eq_of_path hother heq
  cases closing with
  | outputs =>
      cases now with
      | outputs => exact mem_renameInto (hpath .outputs) hpresent
      | spends => exact hpresent
      | blocks => exact hpresent
  | spends =>
      cases now with
      | outputs => exact hpresent
      | spends => exact mem_renameInto (hpath .spends) hpresent
      | blocks => exact hpresent
  | blocks =>
      cases now with
      | outputs => exact hpresent
      | spends => exact hpresent
      | blocks => exact mem_renameInto (hpath .blockMeta) hpresent

theorem present_close (closing : Closing) :
    Present network (parsed.close ⟨network, chunk⟩ closing) chunk closing := by
  cases closing with
  | outputs => exact List.mem_cons_self
  | spends => exact List.mem_cons_self
  | blocks => exact List.mem_cons_self

theorem Finished.close (hfinished : Finished network parsed other upTo) (hchunk : chunk.Of chain)
    (hother : other.Of chain) (now : Closing) :
    Finished network (parsed.close ⟨network, chunk⟩ now) other upTo :=
  fun closing hmem => (hfinished closing hmem).close hchunk hother now

/-- A worker that closes its next file is one file further. -/
theorem Finished.next (hfinished : Finished network parsed chunk (some closing))
    (hchunk : chunk.Of chain) :
    Finished network (parsed.close ⟨network, chunk⟩ closing) chunk closing.next := by
  intro earlier hmem
  rw [closedBefore_next, List.mem_append, List.mem_singleton] at hmem
  rcases hmem with hmem | rfl
  · exact (hfinished earlier hmem).close hchunk hchunk closing
  · exact present_close _

/-- What another worker finds of its range stays. -/
theorem looksComplete_close (hchunk : chunk.Of chain) (hother : other.Of chain)
    (hne : other ≠ chunk) (closing : Closing) :
    (parsed.close ⟨network, chunk⟩ closing).looksComplete other = parsed.looksComplete other := by
  have hpath : ∀ magic, outPath magic other.firstHeight other.lastHeight ≠
      outPath magic chunk.firstHeight chunk.lastHeight :=
    fun magic heq => hne (hchunk.eq_of_path hother heq)
  have houtputs : existingDatLooksComplete (renameInto parsed.outputs (parseOutputs network chunk))
      (outPath .outputs other.firstHeight other.lastHeight) = existingDatLooksComplete _ _ :=
    existingDat_renameInto (hpath .outputs)
  have hspends : existingDatLooksComplete (renameInto parsed.spends (parseSpends network chunk))
      (outPath .spends other.firstHeight other.lastHeight) = existingDatLooksComplete _ _ :=
    existingDat_renameInto (hpath .spends)
  have hblocks : existingDatLooksComplete (renameInto parsed.blocks (parseMeta network chunk))
      (outPath .blockMeta other.firstHeight other.lastHeight) = existingDatLooksComplete _ _ :=
    existingDat_renameInto (hpath .blockMeta)
  unfold ParsedFiles.looksComplete WorkDir.looksComplete
  cases closing with
  | outputs => rw [ParsedFiles.close, houtputs]
  | spends => rw [ParsedFiles.close, hspends]
  | blocks => rw [ParsedFiles.close, hblocks]

end Close

structure ParsedInv (network : Network) (chunks : List Dump) (parsed : ParsedFiles) : Prop where
  outputs : StreamInv (parseOutputs network) chunks parsed.outputs
  spends : StreamInv (parseSpends network) chunks parsed.spends
  blocks : StreamInv (parseMeta network) chunks parsed.blocks

theorem ParsedInv.close {network : Network} {chunks : List Dump} {parsed : ParsedFiles}
    {chunk : Dump} (hinv : ParsedInv network chunks parsed) (hchunk : chunk ∈ chunks)
    (closing : Closing) : ParsedInv network chunks (parsed.close ⟨network, chunk⟩ closing) := by
  cases closing with
  | outputs => exact ⟨hinv.outputs.close hchunk, hinv.spends, hinv.blocks⟩
  | spends => exact ⟨hinv.outputs, hinv.spends.close hchunk, hinv.blocks⟩
  | blocks => exact ⟨hinv.outputs, hinv.spends, hinv.blocks.close hchunk⟩

/-- **The parse of a run's chunks.** Every file is one of theirs; a chunk that no worker has yet is
whole if it looks so, and a chunk whose worker is done is whole. -/
structure ParseInv (network : Network) (chunks : List Dump) (s : ParseState) : Prop where
  parsed : ParsedInv network chunks s.parsed
  files : ∀ file ∈ s.pending ++ s.workers.map Prod.fst,
    ∃ chunk ∈ chunks, file = ⟨network, chunk⟩
  once : (s.pending ++ s.workers.map Prod.fst).Nodup
  pending : ∀ file ∈ s.pending, s.parsed.looksComplete file.dump = true →
    Finished network s.parsed file.dump none
  workers : ∀ worker ∈ s.workers, Finished network s.parsed worker.1.dump (some worker.2)
  rest : ∀ chunk ∈ chunks, ⟨network, chunk⟩ ∉ s.pending ++ s.workers.map Prod.fst →
    Finished network s.parsed chunk none

section Parse

variable {network : Network} {chain : Chain} {chunks : List Dump} {s s' : ParseState}
  {file : ChunkFile} {chunk : Dump} {closing : Closing}

theorem ParseInv.skipped (hinv : ParseInv network chunks s) (hfile : file ∈ s.pending)
    (hcomplete : s.parsed.looksComplete file.dump = true) :
    ParseInv network chunks { s with pending := s.pending.erase file } where
  parsed := hinv.parsed
  files := by
    intro other hmem
    apply hinv.files other
    exact (List.Sublist.append_right List.erase_sublist _).subset hmem
  once := hinv.once.sublist (List.Sublist.append_right List.erase_sublist _)
  pending := fun other hmem => hinv.pending other (List.mem_of_mem_erase hmem)
  workers := hinv.workers
  rest := by
    intro chunk hchunk hnone
    by_cases heq : ChunkFile.mk network chunk = file
    · subst heq
      exact hinv.pending ⟨network, chunk⟩ hfile hcomplete
    · refine hinv.rest chunk hchunk fun hmem => hnone ?_
      rw [List.mem_append, List.mem_erase_of_ne heq]
      exact List.mem_append.mp hmem

theorem ParseInv.launched (hinv : ParseInv network chunks s) (hfile : file ∈ s.pending) :
    ParseInv network chunks
      { s with pending := s.pending.erase file, workers := (file, .outputs) :: s.workers } := by
  have hperm : (s.pending.erase file ++ file :: s.workers.map Prod.fst).Perm
      (s.pending ++ s.workers.map Prod.fst) :=
    List.perm_middle.trans ((List.perm_cons_erase hfile).symm.append_right _)
  exact {
    parsed := hinv.parsed
    files := fun other hmem => hinv.files other (hperm.mem_iff.mp hmem)
    once := hperm.nodup_iff.mpr hinv.once
    pending := fun other hmem => hinv.pending other (List.mem_of_mem_erase hmem)
    workers := by
      rw [List.forall_mem_cons]
      refine ⟨?_, hinv.workers⟩
      intro earlier hmem
      cases hmem
    rest := fun chunk hchunk hnone =>
      hinv.rest chunk hchunk fun hmem => hnone (hperm.mem_iff.mpr hmem) }

/-- The files without a worker that is done, but for one worker. -/
def ParseState.others (s : ParseState) (worker : ChunkFile × Closing) : List ChunkFile :=
  s.pending ++ (s.workers.erase worker).map Prod.fst

theorem perm_others {worker : ChunkFile × Closing} (hworker : worker ∈ s.workers) :
    (s.pending ++ s.workers.map Prod.fst).Perm (worker.1 :: s.others worker) :=
  (((List.perm_cons_erase hworker).map Prod.fst).append_left _).trans List.perm_middle

/-- No other worker has the range of a worker. -/
theorem ParseInv.others_apart (hinv : ParseInv network chunks s)
    (hworker : (⟨network, chunk⟩, closing) ∈ s.workers) :
    ∀ other ∈ s.others (⟨network, chunk⟩, closing),
      ∃ next ∈ chunks, other = ⟨network, next⟩ ∧ next ≠ chunk := by
  intro other hmem
  have hperm := perm_others hworker
  obtain ⟨next, hnext, rfl⟩ := hinv.files other (hperm.mem_iff.mpr (List.mem_cons_of_mem _ hmem))
  refine ⟨next, hnext, rfl, ?_⟩
  rintro rfl
  exact (List.nodup_cons.mp (hperm.nodup_iff.mp hinv.once)).1 hmem

section Closed

variable (hinv : ParseInv network chunks s) (hchunks : ∀ chunk ∈ chunks, chunk.Of chain)
  (hworker : (⟨network, chunk⟩, closing) ∈ s.workers) (hchunk : chunk ∈ chunks)

include hinv hchunks hworker hchunk

theorem ParseInv.closed_pending : ∀ other ∈ s.pending,
    (s.parsed.close ⟨network, chunk⟩ closing).looksComplete other.dump = true →
      Finished network (s.parsed.close ⟨network, chunk⟩ closing) other.dump none := by
  intro other hmem hcomplete
  obtain ⟨next, hnext, rfl, hne⟩ := hinv.others_apart hworker other (List.mem_append_left _ hmem)
  have hof := hchunks chunk hchunk
  rw [looksComplete_close hof (hchunks next hnext) hne] at hcomplete
  exact (hinv.pending _ hmem hcomplete).close hof (hchunks next hnext) closing

theorem ParseInv.closed_workers : ∀ worker ∈ s.workers.erase (⟨network, chunk⟩, closing),
    Finished network (s.parsed.close ⟨network, chunk⟩ closing) worker.1.dump (some worker.2) := by
  intro worker hmem
  obtain ⟨next, hnext, hfile, -⟩ := hinv.others_apart hworker worker.1
    (List.mem_append_right _ (List.mem_map.mpr ⟨_, hmem, rfl⟩))
  have hof : worker.1.dump.Of chain := hfile ▸ hchunks next hnext
  exact (hinv.workers worker (List.mem_of_mem_erase hmem)).close (hchunks chunk hchunk) hof closing

theorem ParseInv.closed_rest : ∀ next ∈ chunks, next ≠ chunk →
    ChunkFile.mk network next ∉ s.others (⟨network, chunk⟩, closing) →
      Finished network (s.parsed.close ⟨network, chunk⟩ closing) next none := by
  intro next hnext hne hnone
  have hfinished := hinv.rest next hnext fun hmem => by
    rcases List.mem_cons.mp ((perm_others hworker).mem_iff.mp hmem) with heq | hmem
    · exact hne (ChunkFile.mk.inj heq).2
    · exact hnone hmem
  exact hfinished.close (hchunks chunk hchunk) (hchunks next hnext) closing

end Closed

/-- A worker that closes a file goes on with its next one, or is done. -/
theorem ParseInv.closed (hinv : ParseInv network chunks s)
    (hchunks : ∀ chunk ∈ chunks, chunk.Of chain) (hworker : (file, closing) ∈ s.workers) :
    ParseInv network chunks
      { s with
        parsed := s.parsed.close file closing
        workers := (closing.next.map fun next => (file, next)).toList ++
          s.workers.erase (file, closing) } := by
  have hlisted : file ∈ s.workers.map Prod.fst := List.mem_map.mpr ⟨_, hworker, rfl⟩
  obtain ⟨chunk, hchunk, rfl⟩ := hinv.files file (List.mem_append_right _ hlisted)
  have hperm := perm_others hworker
  have hpending := hinv.closed_pending hchunks hworker hchunk
  have hworkers := hinv.closed_workers hchunks hworker hchunk
  have hrest := hinv.closed_rest hchunks hworker hchunk
  have hnow : Finished network (s.parsed.close ⟨network, chunk⟩ closing) chunk closing.next := by
    have hbefore : Finished network s.parsed chunk (some closing) := hinv.workers _ hworker
    exact hbefore.next (hchunks chunk hchunk)
  cases hnext : closing.next with
  | none =>
      rw [hnext] at hnow
      exact {
        parsed := hinv.parsed.close hchunk closing
        files := fun other hmem =>
          (hinv.others_apart hworker other hmem).imp fun _ h => ⟨h.1, h.2.1⟩
        once := (List.nodup_cons.mp (hperm.nodup_iff.mp hinv.once)).2
        pending := hpending
        workers := hworkers
        rest := by
          intro next hmem hnone
          by_cases heq : next = chunk
          · rw [heq]
            exact hnow
          · exact hrest next hmem heq hnone }
  | some next =>
      rw [hnext] at hnow
      have hmiddle := @List.perm_middle _ (⟨network, chunk⟩ : ChunkFile) s.pending
        ((s.workers.erase (⟨network, chunk⟩, closing)).map Prod.fst)
      have hall := hmiddle.trans hperm.symm
      exact {
        parsed := hinv.parsed.close hchunk closing
        files := fun other hmem => hinv.files other (hall.mem_iff.mp hmem)
        once := hall.nodup_iff.mpr hinv.once
        pending := hpending
        workers := List.forall_mem_cons.mpr ⟨hnow, hworkers⟩
        rest := by
          intro other hmem hnone
          refine hrest other hmem ?_ ?_
          · rintro rfl
            exact hnone (hmiddle.mem_iff.mpr List.mem_cons_self)
          · exact fun h => hnone (hmiddle.mem_iff.mpr (List.mem_cons_of_mem _ h)) }

/-- **The step lemma.** -/
theorem ParseInv.step (hinv : ParseInv network chunks s)
    (hchunks : ∀ chunk ∈ chunks, chunk.Of chain) (hstep : ParseStep s s') :
    ParseInv network chunks s' := by
  cases hstep with
  | skipped hfile hcomplete => exact hinv.skipped hfile hcomplete
  | launched hfile hcomplete => exact hinv.launched hfile
  | closed hworker => exact hinv.closed hchunks hworker

/-- **The run lemma.** -/
theorem ParseInv.run (hinv : ParseInv network chunks s)
    (hchunks : ∀ chunk ∈ chunks, chunk.Of chain) (hrun : Relation.ReflTransGen ParseStep s s') :
    ParseInv network chunks s' := by
  induction hrun with
  | refl => exact hinv
  | tail _ hstep ih => exact ih.step hchunks hstep

/-- Chunks have one file name each. -/
theorem nodup_paths (hchunks : ∀ chunk ∈ chunks, chunk.Of chain) (hnodup : chunks.Nodup)
    (magic : Magic) :
    (chunks.map fun chunk => outPath magic chunk.firstHeight chunk.lastHeight).Nodup :=
  hnodup.map_on fun other hother chunk hchunk heq =>
    (hchunks chunk hchunk).eq_of_path (hchunks other hother) heq

/-- **A parse is listed as that of its chunks**, whatever was there before and in whatever order the
workers ran. -/
theorem ParseInv.listed {parsed : ParsedFiles} (hinv : ParseInv network chunks ⟨parsed, [], []⟩)
    (hchunks : ∀ chunk ∈ chunks, chunk.Of chain) (hnodup : chunks.Nodup) :
    parsed.listed = ParsedFiles.listed ⟨chunks.map (parseOutputs network),
      chunks.map (parseSpends network), chunks.map (parseMeta network)⟩ := by
  have hfinished : ∀ chunk ∈ chunks, Finished network parsed chunk none :=
    fun chunk hchunk => hinv.rest chunk hchunk List.not_mem_nil
  have hpresent : ∀ closing ∈ closedBefore none, ∀ chunk ∈ chunks,
      Present network parsed chunk closing :=
    fun closing hmem chunk hchunk => hfinished chunk hchunk closing hmem
  apply ParsedFiles.ext
  · apply hinv.parsed.outputs.listed (hpresent .outputs (by decide))
    rw [List.map_map]
    exact nodup_paths hchunks hnodup .outputs
  · apply hinv.parsed.spends.listed (hpresent .spends (by decide))
    rw [List.map_map]
    exact nodup_paths hchunks hnodup .spends
  · apply hinv.parsed.blocks.listed (hpresent .blocks (by decide))
    rw [List.map_map]
    exact nodup_paths hchunks hnodup .blockMeta

/-- A worker at a time, the parse comes to its end. -/
theorem exists_parsed (pending : List ChunkFile) (parsed : ParsedFiles) :
    ∃ parsed', Relation.ReflTransGen ParseStep ⟨parsed, pending, []⟩ ⟨parsed', [], []⟩ := by
  induction pending generalizing parsed with
  | nil => exact ⟨parsed, .refl⟩
  | cons file rest ih =>
      have hmem : file ∈ file :: rest := List.mem_cons_self
      have herase : (file :: rest).erase file = rest := List.erase_cons_head _ _
      cases hcomplete : parsed.looksComplete file.dump with
      | true =>
          have hstep := ParseStep.skipped (s := ⟨parsed, file :: rest, []⟩) hmem hcomplete
          rw [herase] at hstep
          exact (ih parsed).imp fun _ hrun => .head hstep hrun
      | false =>
          have hlaunch := ParseStep.launched (s := ⟨parsed, file :: rest, []⟩) hmem hcomplete
          rw [herase] at hlaunch
          have hclose : ∀ parsed closing, ParseStep ⟨parsed, rest, [(file, closing)]⟩
              ⟨parsed.close file closing, rest,
                (closing.next.map fun next => (file, next)).toList⟩ := by
            intro parsed closing
            have hstep := ParseStep.closed (s := ⟨parsed, rest, [(file, closing)]⟩)
              List.mem_cons_self
            rwa [List.erase_cons_head, List.append_nil] at hstep
          obtain ⟨parsed', hrun⟩ :=
            ih (((parsed.close file .outputs).close file .spends).close file .blocks)
          exact ⟨parsed', .head hlaunch (.head (hclose _ .outputs) (.head (hclose _ .spends)
            (.head (hclose _ .blocks) hrun)))⟩

end Parse

/-! ### A run on harmless leftovers -/

section Run

variable {args : SeedArgs} {chain : Chain} {start dumpEnd : Int} {w : WorkFiles} {db db' : Db}

/-- What a run merges that starts on an empty work directory. -/
def SeedArgs.listing (args : SeedArgs) (chain : Chain) (start dumpEnd : Int) : ParsedFiles :=
  (chunkFiles args.opts.network (args.chunks chain start dumpEnd)).listed

theorem SeedArgs.listing_current (args : SeedArgs) (chain : Chain) (start dumpEnd : Int) :
    (args.listing chain start dumpEnd).Current := by
  have hcurrent := chunkFiles_current args.opts.network (args.chunks chain start dumpEnd)
  constructor
  · exact fun file hmem => hcurrent.outputs file (mem_findFiles.mp hmem)
  · exact fun file hmem => hcurrent.spends file (mem_findFiles.mp hmem)
  · exact fun file hmem => hcurrent.blocks file (mem_findFiles.mp hmem)

section Phases

variable (hharmless : Harmless args chain (args.chunks chain start dumpEnd) w)
  (hrange : dumpRange args.range (chain.length - 1) args.opts.undoBlocks = .ok (start, dumpEnd))

include hharmless hrange

/-- The dump phase leaves the chunks of the run. -/
theorem Harmless.dumpInv : DumpInv args.opts.network chain w.dumps (args.pieces start dumpEnd)
    (dumpChunks args.opts.network chain (args.pieces start dumpEnd) w.dumps) := by
  have hwithin := args.pieces_within hrange
  have hstart : DumpInv args.opts.network chain w.dumps [] w.dumps :=
    ⟨fun _ hmem => absurd hmem List.not_mem_nil,
      fun _ hmem => .inr ⟨hmem, fun _ hmem => absurd hmem List.not_mem_nil⟩, w.dumps_nodup⟩
  refine hstart.dumpChunks (args.pieces_nodup start dumpEnd) hwithin ?_
  intro piece hpiece file hfile hname hmatches
  have hlast := (hwithin piece hpiece).lastHeight_chunkOf
  refine hharmless.dumps_kept file hfile _ (List.mem_map.mpr ⟨piece, hpiece, rfl⟩) ?_ ?_
  · rw [hname, (hwithin piece hpiece).name_chunkOf]
  · rw [hlast]
    exact hmatches

theorem Harmless.mem_dumped {file : ChunkFile} :
    file ∈ dumpChunks args.opts.network chain (args.pieces start dumpEnd) w.dumps ↔
      ∃ chunk ∈ args.chunks chain start dumpEnd, file = ⟨args.opts.network, chunk⟩ := by
  have hinv := hharmless.dumpInv hrange
  constructor
  · intro hmem
    rcases hinv.rest file hmem with ⟨piece, hpiece, rfl⟩ | ⟨hleft, hnames⟩
    · exact ⟨_, List.mem_map.mpr ⟨piece, hpiece, rfl⟩, rfl⟩
    · obtain ⟨chunk, hchunk, hname⟩ := hharmless.dumps_named file hleft
      obtain ⟨piece, hpiece, rfl⟩ := List.mem_map.mp hchunk
      rw [(args.pieces_within hrange piece hpiece).name_chunkOf] at hname
      exact absurd hname (hnames piece hpiece)
  · rintro ⟨chunk, hchunk, rfl⟩
    obtain ⟨piece, hpiece, rfl⟩ := List.mem_map.mp hchunk
    exact hinv.written piece hpiece

theorem Harmless.parseInv : ParseInv args.opts.network (args.chunks chain start dumpEnd)
    ⟨w.parsed, dumpChunks args.opts.network chain (args.pieces start dumpEnd) w.dumps, []⟩ := by
  have hmem := fun file => @Harmless.mem_dumped _ _ _ _ _ hharmless hrange file
  exact {
    parsed :=
      ⟨⟨w.outputs_nodup, hharmless.outputs_named⟩, ⟨w.spends_nodup, hharmless.spends_named⟩,
        ⟨w.blocks_nodup, hharmless.blocks_named⟩⟩
    files := by
      intro file hfile
      rw [List.map_nil, List.append_nil] at hfile
      exact (hmem file).mp hfile
    once := by
      rw [List.map_nil, List.append_nil]
      exact List.Nodup.of_map _ (hharmless.dumpInv hrange).nodup
    pending := by
      intro file hfile hcomplete
      obtain ⟨chunk, hchunk, rfl⟩ := (hmem file).mp hfile
      obtain ⟨houtputs, hspends, hblocks⟩ := hharmless.complete chunk hchunk hcomplete
      intro closing _
      cases closing with
      | outputs => exact houtputs
      | spends => exact hspends
      | blocks => exact hblocks
    workers := fun _ hnone => absurd hnone List.not_mem_nil
    rest := by
      intro chunk hchunk hnone
      rw [List.map_nil, List.append_nil] at hnone
      exact absurd ((hmem _).mpr ⟨chunk, hchunk, rfl⟩) hnone }

theorem Harmless.listed {parsed : ParsedFiles} (hparse : Relation.ReflTransGen ParseStep
      ⟨w.parsed, dumpChunks args.opts.network chain (args.pieces start dumpEnd) w.dumps, []⟩
      ⟨parsed, [], []⟩) :
    parsed.listed = args.listing chain start dumpEnd := by
  have hchunks := args.chunks_of hrange
  have hinv := (hharmless.parseInv hrange).run hchunks hparse
  exact hinv.listed hchunks (args.chunks_nodup hrange)

end Phases

theorem Harmless.cleanMerge (hharmless : Harmless args chain (args.chunks chain start dumpEnd) w) :
    CleanMerge args.orchestrator (args.listing chain start dumpEnd) ⟨w.merge, .concat⟩ :=
  ⟨.concat, w.allMeta, hharmless.outputsSorted, hharmless.spendsSorted⟩

/-- **What a run on harmless leftovers loads** is decided by its arguments and the chain. -/
theorem WorkFiles.HarmlessTo.succeeds_iff (hharmless : w.HarmlessTo args chain) :
    Succeeds args chain w db db' ↔ ∃ start dumpEnd keys,
      dumpRange args.range (chain.length - 1) args.opts.undoBlocks = .ok (start, dumpEnd) ∧
      mergeParsed args.orchestrator (args.listing chain start dumpEnd) = .ok keys ∧
      loadKeys args.opts.batchSize keys db = .ok db' := by
  constructor
  · rintro ⟨hrange, hparse, hmerge, hload⟩
    have hleft := hharmless _ _ hrange
    rw [hleft.listed hrange hparse] at hmerge
    exact ⟨_, _, _, hrange, hleft.cleanMerge.keys (args.listing_current ..) hmerge, hload⟩
  · rintro ⟨start, dumpEnd, keys, hrange, hkeys, hload⟩
    have hleft := hharmless start dumpEnd hrange
    obtain ⟨parsed, hparse⟩ := exists_parsed
      (dumpChunks args.opts.network chain (args.pieces start dumpEnd) w.dumps) w.parsed
    obtain ⟨merge, hmerge⟩ := exists_merged (args.listing_current chain start dumpEnd) hkeys
      (concatReusable_eq_false w.allMeta) hleft.outputsSorted hleft.spendsSorted
    rw [← hleft.listed hrange hparse] at hmerge
    exact ⟨hrange, hparse, hmerge, hload⟩

theorem WorkFiles.empty_harmless (args : SeedArgs) (chain : Chain) :
    WorkFiles.empty.HarmlessTo args chain := by
  intro start dumpEnd _
  constructor
  · exact fun _ hmem => absurd hmem List.not_mem_nil
  · exact fun _ hmem => absurd hmem List.not_mem_nil
  · exact fun _ hmem => absurd hmem List.not_mem_nil
  · exact fun _ hmem => absurd hmem List.not_mem_nil
  · exact fun _ hmem => absurd hmem List.not_mem_nil
  · exact fun _ _ hcomplete => absurd hcomplete Bool.false_ne_true
  · exact fun _ _ hreuse => absurd hreuse Bool.false_ne_true
  · exact fun _ _ hreuse => absurd hreuse Bool.false_ne_true

end Run

end Bulk

end UtxoTracker

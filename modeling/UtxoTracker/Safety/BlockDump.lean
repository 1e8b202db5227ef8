import Mathlib.Data.List.Pairwise
import UtxoTracker.Proof.Xdmp
/-!
# A dump reads back as it was fetched

The chunk loop writes well-formed files that tile the range. Read in order they give every block once,
and none of them can be cut without the reader noticing.
-/

namespace UtxoTracker.Xdmp

open ByteString Fallible ValueCodec

/-! ### File names -/

theorem padStart_injective (width : Nat) :
    Function.Injective fun n => (padStart width (Nat.repr n)).toList := by
  intro n m heq
  have hvalue : ∀ n, Nat.ofDigitChars 10 (padStart width (Nat.repr n)).toList 0 = n := by
    intro n
    have hdigits : (Nat.repr n).toList = Nat.toDigits 10 n := by simp [Nat.repr]
    rw [padStart, String.toList_append, String.toList_ofList, hdigits, Nat.ofDigitChars_append,
      Nat.ofDigitChars_replicate_zero, Nat.mul_zero, Nat.ofDigitChars_ten_toDigits]
  rw [← hvalue n, ← hvalue m]
  exact congrArg (fun text => Nat.ofDigitChars 10 text 0) heq

theorem dash_notMem_padStart (width n : Nat) : '-' ∉ (padStart width (Nat.repr n)).toList := by
  have hdigits : (Nat.repr n).toList = Nat.toDigits 10 n := by simp [Nat.repr]
  intro hmem
  rw [padStart, String.toList_append, String.toList_ofList, hdigits, List.mem_append] at hmem
  rcases hmem with hmem | hmem
  · exact absurd (List.eq_of_mem_replicate hmem) (by decide)
  · exact absurd (Nat.isDigit_of_mem_toDigits (by decide) (by decide) hmem) (by decide)

theorem toList_chunkFileName (chain : ChainName) (netName : NetworkName) (start stop : Nat) :
    (chunkFileName chain netName start stop).toList =
      ("blocks-" ++ chain.text ++ "-" ++ netName.text ++ "-").toList ++
        ((padStart 8 (Nat.repr start)).toList ++
          '-' :: ((padStart 8 (Nat.repr stop)).toList ++ ".xdmp".toList)) := by
  have hdash : "-".toList = ['-'] := by decide
  simp only [chunkFileName, String.toList_append, List.append_assoc, hdash, List.cons_append,
    List.nil_append]

/-- **No two ranges share a file name.** -/
theorem chunkFileName_inj {chain : ChainName} {netName : NetworkName} {start stop start' stop' : Nat}
    (heq : chunkFileName chain netName start stop = chunkFileName chain netName start' stop') :
    start = start' ∧ stop = stop' := by
  have hlist := congrArg String.toList heq
  have hend : ∀ n, '-' ∉ (padStart 8 (Nat.repr n)).toList ++ ".xdmp".toList := by
    intro n
    rw [List.mem_append, not_or]
    exact ⟨dash_notMem_padStart 8 n, by decide⟩
  rw [toList_chunkFileName, toList_chunkFileName, List.append_cancel_left_eq] at hlist
  have hsplit := (List.append_cons_inj_of_notMem (dash_notMem_padStart 8 start) (hend stop)).mp hlist
  obtain ⟨hfirst, -, hlast⟩ := hsplit
  exact ⟨padStart_injective 8 hfirst, padStart_injective 8 (List.append_cancel_right hlast)⟩

/-- No chunk file has the name of a temporary file. -/
theorem chunkFileName_ne_tmp {chain : ChainName} {netName : NetworkName}
    {start stop start' stop' : Nat} :
    chunkFileName chain netName start stop ≠
      chunkFileName chain netName start' stop' ++ ".tmp" := by
  intro heq
  have hlist := congrArg (fun text : String => text.toList.reverse[2]?) heq
  simp only [String.toList_append, toList_chunkFileName, List.reverse_append,
    List.reverse_cons] at hlist
  revert hlist
  have hxdmp : ".xdmp".toList.reverse = ['p', 'm', 'd', 'x', '.'] := by decide
  have htmp : ".tmp".toList.reverse = ['p', 'm', 't', '.'] := by decide
  rw [hxdmp, htmp]
  simp

/-! ### Fetching -/

section Fetch

variable {hash256 : List UInt8 → List UInt8} {connector : Connector} {args : DumpArgs}
  {blocks : List DumpBlock}

/-- The connector answers a batch with the blocks asked for, in the order asked for. -/
structure Connector.InOrder (connector : Connector) : Prop where
  batch : ∀ heights blocks, connector.getBlocksBatch heights = .ok blocks →
    blocks.map DumpBlock.height = heights
  stripped : ∀ heights blocks, connector.getBlocksBatchWithoutAuxPow heights = .ok blocks →
    blocks.map DumpBlock.height = heights

theorem fetchAuxPowBlockForDump_height {height : Nat} {block : DumpBlock}
    (hfetch : fetchAuxPowBlockForDump hash256 connector height = .ok block) :
    block.height = height := by
  rw [fetchAuxPowBlockForDump, bind_eq_ok_iff] at hfetch
  obtain ⟨hash, -, hrun⟩ := hfetch
  cases hstrip : connector.getBlockWithoutAuxPow hash with
  | ok hex =>
      simp only [hstrip, Except.ok.injEq] at hrun
      rw [← hrun]
  | error e =>
      simp only [hstrip] at hrun
      split_ifs at hrun with htagged
      simp only [bind_eq_ok_iff] at hrun
      obtain ⟨hex, -, -, -, hblock⟩ := hrun
      rw [← Except.ok.inj hblock]

theorem fetchEach_heights {heights : List Nat}
    (hfetch : fetchEach hash256 connector heights = .ok blocks) :
    blocks.map DumpBlock.height = heights := by
  induction heights generalizing blocks with
  | nil =>
      rw [← Except.ok.inj hfetch]
      rfl
  | cons height rest ih =>
      simp only [fetchEach, bind_eq_ok_iff] at hfetch
      obtain ⟨block, hblock, others, hothers, hrun⟩ := hfetch
      rw [← Except.ok.inj hrun, List.map_cons, fetchAuxPowBlockForDump_height hblock, ih hothers]

/-- **A batch comes back in order**, also when it is fetched block by block. -/
theorem Connector.InOrder.fetchDumpBatch (hinorder : connector.InOrder) {heights : List Nat}
    {auxPow : Bool} (hfetch : Xdmp.fetchDumpBatch hash256 connector heights auxPow = .ok blocks) :
    blocks.map DumpBlock.height = heights := by
  rw [Xdmp.fetchDumpBatch] at hfetch
  split_ifs at hfetch with haux
  · cases hstrip : connector.getBlocksBatchWithoutAuxPow heights with
    | ok fetched =>
        simp only [hstrip] at hfetch
        exact hinorder.stripped heights blocks (hstrip.trans hfetch)
    | error e =>
        simp only [hstrip] at hfetch
        split_ifs at hfetch with htagged
        exact fetchEach_heights hfetch
  · exact hinorder.batch heights blocks hfetch

/-- A block of the node's answer to a batch of the chunk. -/
def FetchedIn (hash256 : List UInt8 → List UInt8) (connector : Connector) (args : DumpArgs)
    (chunk : Nat × Nat) (block : DumpBlock) : Prop :=
  ∃ batch ∈ RangeLoop.pieces RPC_BATCH_SIZE chunk.1 chunk.2, ∃ blocks,
    fetchDumpBatch hash256 connector (batchHeights batch.1 batch.2) (auxPow args.chain) =
      .ok blocks ∧ block ∈ blocks

/-- A block of the node's answer to a batch of the dump. -/
def Fetched (hash256 : List UInt8 → List UInt8) (connector : Connector) (args : DumpArgs)
    (dumpEnd : Nat) (block : DumpBlock) : Prop :=
  ∃ chunk ∈ RangeLoop.pieces args.chunkSize args.start dumpEnd,
    FetchedIn hash256 connector args chunk block

/-! ### One chunk -/

theorem dumpBatch_ok_iff {cursor batchEnd : Nat} {file file' : List UInt8} :
    dumpBatch hash256 connector args cursor batchEnd file = .ok file' ↔
      ∃ blocks, fetchDumpBatch hash256 connector (batchHeights cursor batchEnd)
        (auxPow args.chain) = .ok blocks ∧ (∀ block ∈ blocks, block.decoded.Admitted) ∧
        file' = file ++ blocks.flatMap fun block => block.decoded.record := by
  simp only [dumpBatch, bind_eq_ok_iff, mapError_eq_ok_iff, writeBlockRecords_ok_iff]

/-- The range of a batch follows that of the batches before. -/
theorem range'_batch {start cursor batchEnd : Nat} (hstart : start ≤ cursor)
    (hle : cursor ≤ batchEnd) : List.range' start (cursor - start) ++ batchHeights cursor batchEnd =
      List.range' start (batchEnd + 1 - start) := by
  have hcursor : cursor = start + (cursor - start) := by omega
  have hcount : batchEnd + 1 - start = cursor - start + (batchEnd + 1 - cursor) := by omega
  rw [batchHeights, hcount, ← List.range'_append_1, ← hcursor]

/-- What the batches of a chunk have written before the cursor. -/
def Written (hash256 : List UInt8 → List UInt8) (connector : Connector) (args : DumpArgs)
    (header : List UInt8) (start stop cursor : Nat) (file : List UInt8) : Prop :=
  start ≤ cursor ∧ ∃ blocks : List DumpBlock,
    file = header ++ (blocks.flatMap fun block => block.decoded.record) ∧
      (∀ block ∈ blocks, block.decoded.Admitted ∧
        FetchedIn hash256 connector args (start, stop) block) ∧
      blocks.map DumpBlock.height = List.range' start (cursor - start)

theorem Written.dumpBatch (hinorder : connector.InOrder) {header file file' : List UInt8}
    {start stop cursor batchEnd : Nat}
    (hbatch : (cursor, batchEnd) ∈ RangeLoop.pieces RPC_BATCH_SIZE start stop)
    (hwritten : Written hash256 connector args header start stop cursor file)
    (hrun : Xdmp.dumpBatch hash256 connector args cursor batchEnd file = .ok file') :
    Written hash256 connector args header start stop (batchEnd + 1) file' := by
  obtain ⟨-, hle, -⟩ := RangeLoop.mem_pieces hbatch
  simp only at hle
  obtain ⟨hstart, blocks, rfl, hall, hheights⟩ := hwritten
  obtain ⟨batch, hfetch, hadmitted, rfl⟩ := dumpBatch_ok_iff.mp hrun
  refine ⟨by omega, blocks ++ batch, ?_, ?_, ?_⟩
  · rw [List.flatMap_append, List.append_assoc]
  · intro block hmem
    rcases List.mem_append.mp hmem with hmem | hmem
    · exact hall block hmem
    · exact ⟨hadmitted block hmem, _, hbatch, batch, hfetch, hmem⟩
  · rw [List.map_append, hheights, hinorder.fetchDumpBatch hfetch, range'_batch hstart hle]

variable {tip chunkStart chunkEnd : Nat} {content : List UInt8}

def chunkHeader (args : DumpArgs) (tip chunkStart chunkEnd : Nat) : HeaderFields :=
  ⟨args.chain, args.netName, chunkStart, chunkEnd, tip⟩

theorem consecutive_decoded {start n : Nat}
    (hheights : blocks.map DumpBlock.height = List.range' start n) :
    blocks.length = n ∧ Consecutive start (blocks.map DumpBlock.decoded) := by
  have hlength : blocks.length = n := by
    rw [← List.length_map, hheights, List.length_range']
  refine ⟨hlength, ?_⟩
  rw [Consecutive, List.map_map, List.length_map, hlength, ← hheights]
  rfl

/-- **A chunk's file is well formed**, and holds the blocks fetched for its range. -/
theorem chunkContent_spec (hinorder : connector.InOrder) (hle : chunkStart ≤ chunkEnd)
    (hrun : chunkContent hash256 connector args chunkStart chunkEnd tip = .ok content) :
    ∃ blocks : List DumpBlock,
      content = (⟨chunkHeader args tip chunkStart chunkEnd,
        blocks.map DumpBlock.decoded⟩ : DumpedFile).bytes ∧
      (⟨chunkHeader args tip chunkStart chunkEnd,
        blocks.map DumpBlock.decoded⟩ : DumpedFile).WellFormed ∧
      blocks.map DumpBlock.height = List.range' chunkStart (chunkEnd + 1 - chunkStart) ∧
      ∀ block ∈ blocks, FetchedIn hash256 connector args (chunkStart, chunkEnd) block := by
  simp only [chunkContent, bind_eq_ok_iff, mapError_eq_ok_iff] at hrun
  obtain ⟨header, hheader, hloop⟩ := hrun
  obtain ⟨hfits, rfl⟩ := ((chunkHeader args tip chunkStart chunkEnd).makeHeader_ok_iff hle).mp hheader
  have hfirst : Written hash256 connector args (chunkHeader args tip chunkStart chunkEnd).bytes
      chunkStart chunkEnd chunkStart (chunkHeader args tip chunkStart chunkEnd).bytes := by
    refine ⟨le_rfl, [], (List.append_nil _).symm, fun _ hmem => absurd hmem List.not_mem_nil, ?_⟩
    rw [Nat.sub_self]
    rfl
  have hlast := RangeLoop.run_induct _ hloop hfirst (by omega) fun first stop file file' hbatch hinv
    hbody => hinv.dumpBatch hinorder hbatch hbody
  obtain ⟨-, blocks, rfl, hall, hheights⟩ := hlast
  obtain ⟨hlength, hconsecutive⟩ := consecutive_decoded hheights
  refine ⟨blocks, ?_, ⟨hfits, ?_, hconsecutive, ?_⟩, hheights, fun block hmem => (hall block hmem).2⟩
  · rw [DumpedFile.bytes, List.flatMap_map]
  · rw [List.length_map, hlength]
    rfl
  · intro b hmem
    obtain ⟨block, hblock, rfl⟩ := List.mem_map.mp hmem
    exact (hall block hblock).1

/-- The node answers every batch of the range, with blocks that the writer takes. -/
def Serves (hash256 : List UInt8 → List UInt8) (connector : Connector) (args : DumpArgs)
    (first last : Nat) : Prop :=
  ∀ cursor batchEnd, first ≤ cursor → cursor ≤ batchEnd → batchEnd ≤ last →
    ∃ blocks, fetchDumpBatch hash256 connector (batchHeights cursor batchEnd) (auxPow args.chain) =
      .ok blocks ∧ ∀ block ∈ blocks, block.decoded.Admitted

/-- **A chunk is written** when the node serves it and its numbers fit the header. -/
theorem chunkContent_ok (hserves : Serves hash256 connector args chunkStart chunkEnd)
    (hfits : (chunkHeader args tip chunkStart chunkEnd).Fits) :
    ∃ content, chunkContent hash256 connector args chunkStart chunkEnd tip = .ok content := by
  have hheader := ((chunkHeader args tip chunkStart chunkEnd).makeHeader_ok_iff hfits.ordered).mpr
    ⟨hfits, rfl⟩
  have hloop : ∃ content, RangeLoop.run RPC_BATCH_SIZE (dumpBatch hash256 connector args) chunkStart
      chunkEnd (chunkHeader args tip chunkStart chunkEnd).bytes = .ok content := by
    apply RangeLoop.run_ok (fun cursor _ => chunkStart ≤ cursor) le_rfl
    intro cursor batchEnd file hbatch hcursor
    obtain ⟨-, hle, hlast⟩ := RangeLoop.mem_pieces hbatch
    obtain ⟨blocks, hfetch, hadmitted⟩ := hserves cursor batchEnd hcursor hle hlast
    exact ⟨_, dumpBatch_ok_iff.mpr ⟨blocks, hfetch, hadmitted, rfl⟩, by omega⟩
  obtain ⟨content, hloop⟩ := hloop
  refine ⟨content, ?_⟩
  simp only [chunkContent, bind_eq_ok_iff, mapError_eq_ok_iff]
  exact ⟨_, hheader, hloop⟩

/-! ### The chunk loop -/

def DumpedFile.name (f : DumpedFile) : String :=
  chunkFileName f.header.chain f.header.netName f.header.firstHeight f.header.lastHeight

variable {cursor dumpEnd : Nat} {dir current next : Directory} {files : List DumpedFile}

/-- What the chunks before the cursor have put into the directory. -/
structure Dumped (hash256 : List UInt8 → List UInt8) (connector : Connector) (args : DumpArgs)
    (dumpEnd : Nat) (dir : Directory) (cursor : Nat) (current : Directory) (files : List DumpedFile)
    (blocks : List DumpBlock) : Prop where
  start_le : args.start ≤ cursor
  wellFormed : ∀ f ∈ files, f.WellFormed
  sameChain : ∀ f ∈ files, f.header.chain = args.chain ∧ f.header.netName = args.netName
  before : ∀ f ∈ files, f.header.firstHeight < cursor
  ordered : files.Pairwise fun f g => f.header.firstHeight < g.header.firstHeight
  stored : ∀ f ∈ files, current f.name = some f.bytes
  others : ∀ name, (∀ f ∈ files, name ≠ f.name) → current name = dir name ∨ current name = none
  content : files.flatMap DumpedFile.blocks = blocks.map DumpBlock.decoded
  heights : blocks.map DumpBlock.height = List.range' args.start (cursor - args.start)
  fetched : ∀ block ∈ blocks, Fetched hash256 connector args dumpEnd block

/-- There is no chunk file in the directory. -/
def Fresh (args : DumpArgs) (dir : Directory) : Prop :=
  ∀ first last, dir (chunkFileName args.chain args.netName first last) = none

/-- The chunks still to come have no file. -/
theorem Dumped.absent (hdumped : Dumped hash256 connector args dumpEnd dir cursor current files blocks)
    (hfresh : Fresh args dir) (last : Nat) :
    current (chunkFileName args.chain args.netName cursor last) = none := by
  have hother : ∀ f ∈ files, chunkFileName args.chain args.netName cursor last ≠ f.name := by
    intro f hmem heq
    obtain ⟨hchain, hnet⟩ := hdumped.sameChain f hmem
    rw [DumpedFile.name, hchain, hnet] at heq
    have hlt := hdumped.before f hmem
    have := (chunkFileName_inj heq).1
    omega
  rcases hdumped.others _ hother with hsame | hnone
  · rw [hsame]
    exact hfresh cursor last
  · exact hnone

theorem dumpChunk_of_absent
    (habsent : current (chunkFileName args.chain args.netName chunkStart chunkEnd) = none) :
    dumpChunk hash256 connector args tip chunkStart chunkEnd current = .ok next ↔
      ∃ content, chunkContent hash256 connector args chunkStart chunkEnd tip = .ok content ∧
        next = Function.update (Function.update current
          (chunkFileName args.chain args.netName chunkStart chunkEnd ++ ".tmp") none)
          (chunkFileName args.chain args.netName chunkStart chunkEnd) (some content) := by
  unfold dumpChunk
  dsimp only
  rw [habsent]
  simp only [Bool.false_eq_true, if_false, bind_eq_ok_iff, Except.ok.injEq]
  constructor
  · rintro ⟨content, hcontent, rfl⟩
    exact ⟨content, hcontent, rfl⟩
  · rintro ⟨content, hcontent, rfl⟩
    exact ⟨content, hcontent, rfl⟩

/-- **One chunk more.** -/
theorem Dumped.dumpChunk (hinorder : connector.InOrder) (hfresh : Fresh args dir)
    (hdumped : Dumped hash256 connector args dumpEnd dir chunkStart current files blocks)
    (hchunk : (chunkStart, chunkEnd) ∈ RangeLoop.pieces args.chunkSize args.start dumpEnd)
    (hrun : Xdmp.dumpChunk hash256 connector args tip chunkStart chunkEnd current = .ok next) :
    ∃ f more, Dumped hash256 connector args dumpEnd dir (chunkEnd + 1) next (files ++ [f])
      (blocks ++ more) := by
  obtain ⟨-, hle, -⟩ := RangeLoop.mem_pieces hchunk
  simp only at hle
  have habsent := hdumped.absent hfresh chunkEnd
  obtain ⟨content, hcontent, rfl⟩ := (dumpChunk_of_absent habsent).mp hrun
  obtain ⟨more, rfl, hwf, hheights, hfetched⟩ := chunkContent_spec hinorder hle hcontent
  obtain ⟨f, hf⟩ : ∃ f : DumpedFile, f =
    ⟨chunkHeader args tip chunkStart chunkEnd, more.map DumpBlock.decoded⟩ := ⟨_, rfl⟩
  have hname : chunkFileName args.chain args.netName chunkStart chunkEnd = f.name := by
    rw [hf]
    rfl
  have hfirst : f.header.firstHeight = chunkStart := by
    rw [hf]
    rfl
  rw [← hf] at hwf
  rw [← hf, hname]
  have hdistinct : ∀ g ∈ files, g.name ≠ f.name ∧ g.name ≠ f.name ++ ".tmp" := by
    intro g hmem
    obtain ⟨hchain, hnet⟩ := hdumped.sameChain g hmem
    have hlt := hdumped.before g hmem
    rw [← hname, DumpedFile.name, hchain, hnet]
    refine ⟨fun heq => ?_, chunkFileName_ne_tmp⟩
    have := (chunkFileName_inj heq).1
    omega
  have hstart := hdumped.start_le
  refine ⟨f, more, ⟨by omega, ?_, ?_, ?_, ?_, ?_, ?_, ?_, ?_, ?_⟩⟩
  · intro g hmem
    rcases List.mem_append.mp hmem with hmem | hmem
    · exact hdumped.wellFormed g hmem
    · rwa [List.mem_singleton.mp hmem]
  · intro g hmem
    rcases List.mem_append.mp hmem with hmem | hmem
    · exact hdumped.sameChain g hmem
    · rw [List.mem_singleton.mp hmem, hf]
      exact ⟨rfl, rfl⟩
  · intro g hmem
    rcases List.mem_append.mp hmem with hmem | hmem
    · have := hdumped.before g hmem
      omega
    · rw [List.mem_singleton.mp hmem, hfirst]
      omega
  · apply List.pairwise_append.mpr
    refine ⟨hdumped.ordered, List.pairwise_singleton _ _, ?_⟩
    intro g hmem g' hmem'
    rw [List.mem_singleton.mp hmem', hfirst]
    exact hdumped.before g hmem
  · intro g hmem
    rcases List.mem_append.mp hmem with hmem | hmem
    · obtain ⟨hne, hne'⟩ := hdistinct g hmem
      rw [Function.update_of_ne hne, Function.update_of_ne hne']
      exact hdumped.stored g hmem
    · rw [List.mem_singleton.mp hmem, Function.update_self]
  · intro name hother
    have hne : name ≠ f.name := hother f (List.mem_append_right _ List.mem_cons_self)
    rw [Function.update_of_ne hne]
    by_cases htmp : name = f.name ++ ".tmp"
    · rw [htmp, Function.update_self]
      exact .inr rfl
    · rw [Function.update_of_ne htmp]
      exact hdumped.others name fun g hmem => hother g (List.mem_append_left _ hmem)
  · rw [List.flatMap_append, hdumped.content, List.map_append, hf, List.flatMap_singleton]
  · rw [List.map_append, hdumped.heights, hheights]
    exact range'_batch hstart hle
  · intro block hmem
    rcases List.mem_append.mp hmem with hmem | hmem
    · exact hdumped.fetched block hmem
    · exact ⟨_, hchunk, hfetched block hmem⟩

theorem Dumped.nil (hash256 : List UInt8 → List UInt8) (connector : Connector) (args : DumpArgs)
    (dumpEnd : Nat) (dir : Directory) :
    Dumped hash256 connector args dumpEnd dir args.start dir [] [] where
  start_le := le_rfl
  wellFormed _ hmem := absurd hmem List.not_mem_nil
  sameChain _ hmem := absurd hmem List.not_mem_nil
  before _ hmem := absurd hmem List.not_mem_nil
  ordered := .nil
  stored _ hmem := absurd hmem List.not_mem_nil
  others _ _ := .inl rfl
  content := rfl
  heights := by
    rw [Nat.sub_self]
    rfl
  fetched _ hmem := absurd hmem List.not_mem_nil

/-- **The whole loop.** -/
theorem dumpChunks_dumped (hinorder : connector.InOrder) (hfresh : Fresh args dir)
    (hle : args.start ≤ dumpEnd)
    (hrun : dumpChunks hash256 connector args tip dumpEnd dir = .ok next) :
    ∃ files blocks, Dumped hash256 connector args dumpEnd dir (dumpEnd + 1) next files blocks := by
  apply RangeLoop.run_induct (fun cursor current =>
    ∃ files blocks, Dumped hash256 connector args dumpEnd dir cursor current files blocks) hrun
    ⟨[], [], Dumped.nil hash256 connector args dumpEnd dir⟩ (by omega)
  rintro first stop current next hchunk ⟨files, blocks, hdumped⟩ hbody
  obtain ⟨f, more, hmore⟩ := hdumped.dumpChunk hinorder hfresh hchunk hbody
  exact ⟨_, _, hmore⟩

/-- **The loop succeeds** when the node serves the range and the numbers fit the headers. -/
theorem dumpChunks_ok (hinorder : connector.InOrder) (hfresh : Fresh args dir)
    (hserves : Serves hash256 connector args args.start dumpEnd) (htip : tip < 2 ^ 32)
    (hend : dumpEnd ≤ tip) (hcount : dumpEnd + 1 - args.start < 2 ^ 32) :
    ∃ next, dumpChunks hash256 connector args tip dumpEnd dir = .ok next := by
  apply RangeLoop.run_ok (fun cursor current =>
    ∃ files blocks, Dumped hash256 connector args dumpEnd dir cursor current files blocks)
    ⟨[], [], Dumped.nil hash256 connector args dumpEnd dir⟩
  rintro first stop current hchunk ⟨files, blocks, hdumped⟩
  obtain ⟨hstart, hpiece, hlast⟩ := RangeLoop.mem_pieces hchunk
  simp only at hstart hpiece hlast
  have hfits : (chunkHeader args tip first stop).Fits := by
    refine ⟨hpiece, ?_, ?_, ?_, htip⟩
    all_goals
      simp only [chunkHeader, HeaderFields.blockCount]
      omega
  have hserved : Serves hash256 connector args first stop := by
    intro cursor batchEnd hfirst hle hbatch
    exact hserves cursor batchEnd (hstart.trans hfirst) hle (hbatch.trans hlast)
  obtain ⟨content, hcontent⟩ := chunkContent_ok hserved hfits
  have hwritten := (dumpChunk_of_absent (hdumped.absent hfresh stop)).mpr ⟨content, hcontent, rfl⟩
  obtain ⟨f, more, hmore⟩ := hdumped.dumpChunk hinorder hfresh hchunk hwritten
  exact ⟨_, hwritten, _, _, hmore⟩

/-! ### Reading the files -/

/-- A file and its name. -/
def DumpedFile.entry (f : DumpedFile) : String × List UInt8 := (f.name, f.bytes)

theorem readFiles_entries (hwf : ∀ f ∈ files, f.WellFormed) :
    readFiles (files.map DumpedFile.entry) = .ended (files.flatMap DumpedFile.blocks) := by
  induction files with
  | nil => rfl
  | cons f rest ih =>
      obtain ⟨hf, hrest⟩ := List.forall_mem_cons.mp hwf
      rw [List.map_cons, DumpedFile.entry, readFiles, hf.readFile_eq, ih hrest,
        Generator.delegate_ended_ended, List.flatMap_cons]

theorem DumpedFile.WellFormed.firstHeight_eq {f : DumpedFile} (hwf : f.WellFormed) :
    readUInt32LE f.entry.2 12 = f.header.firstHeight := by
  have hmagic : At f.entry.2 0 (f.header.bytes ++ f.blocks.flatMap XdmpBlock.record) := At.start _
  rw [HeaderFields.bytes_eq] at hmagic
  simp only [List.append_assoc] at hmagic
  have hversion := ((hmagic.skip_of_length (show MAGIC.length = 8 from rfl)).skip_of_length
    List.length_singleton).skip_of_length List.length_singleton
  exact readUInt32LE_of_at (hversion.skip_of_length (length_toLE 2 _)) hwf.fits.first_lt

/-- The new files of a directory. -/
def NewFiles (dir next : Directory) (entries : List (String × List UInt8)) : Prop :=
  entries.Nodup ∧ ∀ name file, (name, file) ∈ entries ↔ dir name = none ∧ next name = some file

/-- In the order of the first heights in their headers. -/
def ByFirstHeight (entries : List (String × List UInt8)) : Prop :=
  entries.Pairwise fun a b => readUInt32LE a.2 12 ≤ readUInt32LE b.2 12

theorem Dumped.entries_sorted
    (hdumped : Dumped hash256 connector args dumpEnd dir cursor next files blocks) :
    (files.map DumpedFile.entry).Pairwise fun a b => readUInt32LE a.2 12 < readUInt32LE b.2 12 := by
  rw [List.pairwise_map]
  apply hdumped.ordered.imp_of_mem
  intro f g hf hg hlt
  rwa [(hdumped.wellFormed f hf).firstHeight_eq, (hdumped.wellFormed g hg).firstHeight_eq]

theorem Dumped.newFiles
    (hdumped : Dumped hash256 connector args dumpEnd dir cursor next files blocks)
    (hfresh : Fresh args dir) : NewFiles dir next (files.map DumpedFile.entry) := by
  constructor
  · apply hdumped.entries_sorted.imp
    rintro a b hlt rfl
    exact Nat.lt_irrefl _ hlt
  · intro name file
    rw [List.mem_map]
    constructor
    · rintro ⟨f, hmem, heq⟩
      obtain ⟨rfl, rfl⟩ := Prod.mk.inj heq
      obtain ⟨hchain, hnet⟩ := hdumped.sameChain f hmem
      refine ⟨?_, hdumped.stored f hmem⟩
      rw [DumpedFile.name, hchain, hnet]
      exact hfresh _ _
    · rintro ⟨habsent, hstored⟩
      by_cases hname : ∃ f ∈ files, name = f.name
      · obtain ⟨f, hmem, rfl⟩ := hname
        rw [hdumped.stored f hmem] at hstored
        refine ⟨f, hmem, ?_⟩
        rw [DumpedFile.entry, Option.some.inj hstored]
      · have hother : ∀ f ∈ files, name ≠ f.name := by
          intro f hmem heq
          exact hname ⟨f, hmem, heq⟩
        rcases hdumped.others name hother with hsame | hnone
        · rw [hsame, habsent] at hstored
          cases hstored
        · rw [hnone] at hstored
          cases hstored

/-- **The order is that of the loop.** -/
theorem Dumped.eq_of_sorted
    (hdumped : Dumped hash256 connector args dumpEnd dir cursor next files blocks)
    (hfresh : Fresh args dir) {order : List (String × List UInt8)}
    (hnew : NewFiles dir next order) (hsorted : ByFirstHeight order) :
    order = files.map DumpedFile.entry := by
  obtain ⟨hnodup, hmem⟩ := hdumped.newFiles hfresh
  have hperm : order.Perm (files.map DumpedFile.entry) := by
    apply (List.perm_ext_iff_of_nodup hnew.1 hnodup).mpr
    rintro ⟨name, file⟩
    rw [hnew.2, hmem]
  have hdistinct : (files.map DumpedFile.entry).Pairwise fun a b =>
      readUInt32LE a.2 12 ≠ readUInt32LE b.2 12 := hdumped.entries_sorted.imp Nat.ne_of_lt
  have hle : ByFirstHeight (files.map DumpedFile.entry) := hdumped.entries_sorted.imp Nat.le_of_lt
  have hsymm : Std.Symm fun a b : String × List UInt8 =>
      readUInt32LE a.2 12 ≠ readUInt32LE b.2 12 := ⟨fun _ _ hkey => hkey.symm⟩
  apply List.Perm.eq_of_pairwise ?_ hsorted hle hperm
  intro a b ha hb hab hba
  by_contra hne
  exact hdistinct.forall (hperm.mem_iff.mp ha) hb hne (Nat.le_antisymm hab hba)

/-- **A dump and back.** When the node serves the range the loop succeeds; and whenever it succeeds,
the new files in the order of their first heights yield every block of the range once, in order and as
it was fetched, and a file that is cut makes the reader throw. -/
theorem block_dump_round_trip (hash256 : List UInt8 → List UInt8) {connector : Connector}
    (args : DumpArgs) (tip dumpEnd : Nat) (dir : Directory) (hinorder : connector.InOrder)
    (hle : args.start ≤ dumpEnd) (hfresh : Fresh args dir) :
    (Serves hash256 connector args args.start dumpEnd → tip < 2 ^ 32 → dumpEnd ≤ tip →
      dumpEnd + 1 - args.start < 2 ^ 32 →
      ∃ next, dumpChunks hash256 connector args tip dumpEnd dir = .ok next) ∧
    ∀ next, dumpChunks hash256 connector args tip dumpEnd dir = .ok next →
      ∃ (blocks : List DumpBlock) (entries : List (String × List UInt8)),
        NewFiles dir next entries ∧ ByFirstHeight entries ∧
        blocks.map DumpBlock.height = List.range' args.start (dumpEnd + 1 - args.start) ∧
        (∀ block ∈ blocks, Fetched hash256 connector args dumpEnd block) ∧
        (∀ order, NewFiles dir next order → ByFirstHeight order →
          readFiles order = .ended (blocks.map DumpBlock.decoded)) ∧
        ∀ entry ∈ entries, ∀ k < entry.2.length,
          ∃ e, (readFile entry.1 (entry.2.take k)).thrown = some e := by
  refine ⟨dumpChunks_ok hinorder hfresh, ?_⟩
  intro next hrun
  obtain ⟨files, blocks, hdumped⟩ := dumpChunks_dumped hinorder hfresh hle hrun
  refine ⟨blocks, files.map DumpedFile.entry, hdumped.newFiles hfresh,
    hdumped.entries_sorted.imp Nat.le_of_lt, hdumped.heights, hdumped.fetched, ?_, ?_⟩
  · intro order hnew hsorted
    rw [hdumped.eq_of_sorted hfresh hnew hsorted, readFiles_entries hdumped.wellFormed,
      hdumped.content]
  · intro entry hmem k hcut
    obtain ⟨f, hf, rfl⟩ := List.mem_map.mp hmem
    exact (hdumped.wellFormed f hf).readFile_cut f.name hcut

end Fetch

/-! ### A node of small blocks -/

def smallBlock (height : Nat) : DumpBlock :=
  ⟨height, toHex (List.replicate 32 7), toHex [9, 8]⟩

def smallNode : Connector where
  getBlocksBatch heights := .ok (heights.map smallBlock)
  getBlocksBatchWithoutAuxPow heights := .ok (heights.map smallBlock)
  getBlockHash height := .ok (smallBlock height).hash
  getBlockWithoutAuxPow _ := .ok (toHex [9, 8])
  getBlockReassembled _ := .ok (toHex [9, 8])

theorem smallNode_inOrder : smallNode.InOrder := by
  have hheights : ∀ heights : List Nat, (heights.map smallBlock).map DumpBlock.height = heights := by
    intro heights
    rw [List.map_map]
    exact List.map_id heights
  constructor
  · intro heights blocks hfetch
    rw [← Except.ok.inj hfetch, hheights]
  · intro heights blocks hfetch
    rw [← Except.ok.inj hfetch, hheights]

theorem smallNode_serves (hash256 : List UInt8 → List UInt8) (args : DumpArgs) {first last : Nat}
    (hlast : last < 2 ^ 32) : Serves hash256 smallNode args first last := by
  rintro cursor batchEnd - - hend
  refine ⟨(batchHeights cursor batchEnd).map smallBlock, ?_, ?_⟩
  · unfold fetchDumpBatch smallNode
    split_ifs <;> rfl
  · intro block hmem
    obtain ⟨height, hheight, rfl⟩ := List.mem_map.mp hmem
    have hrange := List.mem_range'_1.mp hheight
    refine ⟨?_, ?_, ?_, ?_⟩
    · simp only [DumpBlock.decoded, smallBlock, ofHex_toHex]
      decide
    · simp only [DumpBlock.decoded, smallBlock, ofHex_toHex]
      decide
    · simp only [DumpBlock.decoded, smallBlock, ofHex_toHex, List.length_replicate]
    · simp only [DumpBlock.decoded, smallBlock]
      omega

/-- Three blocks in chunks of two. -/
theorem block_dump_round_trip_small : ∃ next,
    dumpChunks id smallNode ⟨.bitcoin, .regtest, 0, 2, Nat.two_pos⟩ 12 2 (fun _ => none) = .ok next ∧
      ∃ (blocks : List DumpBlock) (entries : List (String × List UInt8)),
        NewFiles (fun _ => none) next entries ∧ blocks.map DumpBlock.height = [0, 1, 2] ∧
        readFiles entries = .ended (blocks.map DumpBlock.decoded) := by
  obtain ⟨hok, hreads⟩ := block_dump_round_trip id ⟨.bitcoin, .regtest, 0, 2, Nat.two_pos⟩ 12 2
    (fun _ => none) smallNode_inOrder (Nat.zero_le 2) (fun _ _ => rfl)
  obtain ⟨next, hrun⟩ := hok (smallNode_serves id _ (by decide)) (by decide) (by decide) (by decide)
  obtain ⟨blocks, entries, hnew, hsorted, hheights, -, hread, -⟩ := hreads next hrun
  exact ⟨next, hrun, blocks, entries, hnew, hheights, hread entries hnew hsorted⟩

end UtxoTracker.Xdmp

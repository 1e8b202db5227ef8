import Mathlib.Data.List.Chain
import Mathlib.Data.Set.Function
import UtxoTracker.Bulk.ValidateChain
import UtxoTracker.Lib.Fallible
import UtxoTracker.Proof.Xdmp
/-!
# The header chain binds the blocks

Which sequences of blocks the validation accepts, block by block and then over whole files. As a
header holds the hash of the block before it, the hash of the last block settles every header.
-/

namespace UtxoTracker.Xdmp

open ByteString Fallible ValueCodec

theorem reverse32_eq {src : List UInt8} (hlength : src.length = 32) : reverse32 src = src.reverse := by
  apply List.ext_getElem
  · rw [reverse32, List.length_map, List.length_range, List.length_reverse, hlength]
  · intro i hi hi'
    rw [reverse32, List.length_map, List.length_range] at hi
    have hin : 31 - i < src.length := by omega
    have hindex : src.length - 1 - i = 31 - i := by omega
    simp only [reverse32, List.getElem_map, List.getElem_range, List.getElem_reverse, hindex,
      List.getD_eq_getElem?_getD, List.getElem?_eq_getElem hin, Option.getD_some]

namespace XdmpBlock

def header (b : XdmpBlock) : List UInt8 := b.blockBytes.take HEADER_BYTES

/-- The block holds a header, and its stored hash is the header's, as hashes are displayed. -/
structure Sound (sha256 : Bulk.Sha256) (b : XdmpBlock) : Prop where
  length_le : HEADER_BYTES ≤ b.blockBytes.length
  hash_eq : b.blockHash = (headerHash sha256 b.header).reverse

/-- `b` may follow `before`. -/
def Follows (before b : XdmpBlock) : Prop :=
  b.height = before.height + 1 ∧ headerPrev b = before.blockHash

/-- `b` may be the first block. -/
def Starts (b : XdmpBlock) : Prop := b.height = 0 → headerPrev b = ZERO32

end XdmpBlock

variable {sha256 : Bulk.Sha256} {blocks blocks' : List XdmpBlock} {b : XdmpBlock}
  {state : VerifyState}

theorem length_headerHash (header : List UInt8) : (headerHash sha256 header).length = 32 :=
  length_toBE 32 _

/-! ### One block -/

theorem verifyHeader_eq_none_iff : verifyHeader sha256 b = none ↔ b.Sound sha256 := by
  have hcomputed : reverse32 (headerHash sha256 b.header) = (headerHash sha256 b.header).reverse :=
    reverse32_eq (length_headerHash _)
  unfold verifyHeader
  dsimp only
  split_ifs with hshort hlength hhash
  · apply iff_of_false not_false
    intro hsound
    exact Nat.not_lt_of_le hsound.length_le hshort
  · apply iff_of_false not_false
    intro hsound
    apply hlength
    rw [hsound.hash_eq, List.length_reverse, length_headerHash]
  · apply iff_of_false not_false
    intro hsound
    exact hhash (hcomputed.trans hsound.hash_eq.symm)
  · apply iff_of_true rfl
    exact ⟨Nat.le_of_not_lt hshort, (not_not.mp hhash).symm.trans hcomputed⟩

/-- What the loop keeps of the block before. -/
structure VerifyState.Keeps (state : VerifyState) (before : Option XdmpBlock) : Prop where
  prevHeight : state.prevHeight = before.map XdmpBlock.height
  prevHash : state.prevHash = before.map XdmpBlock.blockHash

theorem VerifyState.keeps_next (state : VerifyState) (b : XdmpBlock) :
    (state.next b).Keeps (some b) := ⟨rfl, rfl⟩

/-- `b` may come after what came before, if anything did. -/
def Linked : Option XdmpBlock → XdmpBlock → Prop
  | none, b => b.Starts
  | some before, b => before.Follows b

theorem VerifyState.Keeps.verifyBackwardLink_eq_none_iff {before : Option XdmpBlock}
    (hkeeps : state.Keeps before) :
    verifyBackwardLink b.height (headerPrev b) state.prevHeight state.prevHash = none ↔
      Linked before b := by
  rw [hkeeps.prevHeight, hkeeps.prevHash]
  cases before with
  | none =>
      simp only [Option.map_none, verifyBackwardLink, Linked, XdmpBlock.Starts]
      split_ifs with hgenesis
      · exact iff_of_false not_false fun hstarts => hgenesis.2 (hstarts hgenesis.1)
      · apply iff_of_true rfl
        intro hzero
        by_contra hne
        exact hgenesis ⟨hzero, hne⟩
  | some before =>
      simp only [Option.map_some, verifyBackwardLink, Option.getD_some, Linked, XdmpBlock.Follows]
      split_ifs with hheight hhash
      · exact iff_of_false not_false fun hfollows => hheight hfollows.1
      · exact iff_of_false not_false fun hfollows => hhash hfollows.2
      · exact iff_of_true rfl ⟨not_not.mp hheight, not_not.mp hhash⟩

variable {decoder : Option (List UInt8 → Except String (List Hash))} {before : Option XdmpBlock}

/-- A block that passes is sound and linked, whatever the Merkle check says. -/
theorem VerifyState.Keeps.of_blockError (hkeeps : state.Keeps before)
    (hnone : blockError sha256 decoder state b = none) : b.Sound sha256 ∧ Linked before b := by
  rw [blockError, Option.or_eq_none_iff, Option.or_eq_none_iff, verifyHeader_eq_none_iff,
    hkeeps.verifyBackwardLink_eq_none_iff] at hnone
  exact ⟨hnone.1, hnone.2.2⟩

/-- Without the Merkle check nothing else is asked of a block. -/
theorem VerifyState.Keeps.blockError_eq_none_iff (hkeeps : state.Keeps before) :
    blockError sha256 none state b = none ↔ b.Sound sha256 ∧ Linked before b := by
  rw [blockError, verifyBody, Option.bind_none, Option.none_or, Option.or_eq_none_iff,
    verifyHeader_eq_none_iff, hkeeps.verifyBackwardLink_eq_none_iff]

/-! ### Sequences -/

/-- Every block is linked to the one before it. -/
def LinkedFrom : Option XdmpBlock → List XdmpBlock → Prop
  | _, [] => True
  | before, b :: rest => Linked before b ∧ LinkedFrom (some b) rest

/-- **The sequences that are accepted.** -/
structure HeaderChain (sha256 : Bulk.Sha256) (blocks : List XdmpBlock) : Prop where
  sound : ∀ b ∈ blocks, b.Sound sha256
  starts : ∀ b ∈ blocks.head?, b.Starts
  follows : blocks.IsChain XdmpBlock.Follows

theorem linkedFrom_some_iff {b : XdmpBlock} {rest : List XdmpBlock} :
    LinkedFrom (some b) rest ↔ (b :: rest).IsChain XdmpBlock.Follows := by
  induction rest generalizing b with
  | nil => exact iff_of_true trivial (.singleton b)
  | cons next rest ih => rw [List.isChain_cons_cons, ← ih, LinkedFrom, Linked]

theorem headerChain_iff : HeaderChain sha256 blocks ↔
    (∀ b ∈ blocks, b.Sound sha256) ∧ LinkedFrom none blocks := by
  cases blocks with
  | nil =>
      constructor
      · intro hchain
        exact ⟨hchain.sound, trivial⟩
      · rintro ⟨hsound, -⟩
        exact ⟨hsound, (fun b hb => nomatch hb), .nil⟩
  | cons first rest =>
      rw [LinkedFrom, linkedFrom_some_iff, Linked]
      constructor
      · intro hchain
        exact ⟨hchain.sound, hchain.starts first rfl, hchain.follows⟩
      · rintro ⟨hsound, hstarts, hfollows⟩
        refine ⟨hsound, ?_, hfollows⟩
        intro b hb
        rwa [← Option.some.inj hb]

theorem VerifyState.Keeps.of_verifyBlocks (hkeeps : state.Keeps before) {state' : VerifyState}
    (hrun : verifyBlocks sha256 decoder state blocks = .ok state') :
    (∀ b ∈ blocks, b.Sound sha256) ∧ LinkedFrom before blocks := by
  induction blocks generalizing state before with
  | nil => exact ⟨fun _ hmem => absurd hmem List.not_mem_nil, trivial⟩
  | cons b rest ih =>
      rw [verifyBlocks] at hrun
      cases herror : blockError sha256 decoder state b with
      | some msg =>
          rw [herror] at hrun
          cases hrun
      | none =>
          rw [herror] at hrun
          obtain ⟨hsound, hlinked⟩ := hkeeps.of_blockError herror
          obtain ⟨hall, hrest⟩ := ih (state.keeps_next b) hrun
          exact ⟨List.forall_mem_cons.mpr ⟨hsound, hall⟩, hlinked, hrest⟩

theorem VerifyState.Keeps.verifyBlocks_ok (hkeeps : state.Keeps before)
    (hsound : ∀ b ∈ blocks, b.Sound sha256) (hlinked : LinkedFrom before blocks) :
    ∃ state', verifyBlocks sha256 none state blocks = .ok state' := by
  induction blocks generalizing state before with
  | nil => exact ⟨state, rfl⟩
  | cons b rest ih =>
      obtain ⟨hb, hrest⟩ := List.forall_mem_cons.mp hsound
      have hnone : blockError sha256 none state b = none :=
        hkeeps.blockError_eq_none_iff.mpr ⟨hb, hlinked.1⟩
      rw [verifyBlocks, hnone]
      exact ih (state.keeps_next b) hrest hlinked.2

theorem verifyBlocks_error {result : VerifyResult}
    (hrun : verifyBlocks sha256 decoder state blocks = .error result) : result.ok = false := by
  induction blocks generalizing state with
  | nil => cases hrun
  | cons b rest ih =>
      rw [verifyBlocks] at hrun
      cases herror : blockError sha256 decoder state b with
      | some msg =>
          rw [herror] at hrun
          rw [← Except.error.inj hrun]
          rfl
      | none =>
          rw [herror] at hrun
          exact ih hrun

/-- The validation found nothing wrong. -/
def Accepted (result : Except String VerifyResult) : Prop := ∃ r, result = .ok r ∧ r.ok = true

variable {decode : String → List UInt8 → Except String (List Hash)} {opts : VerifyOpts}
  {stream : Generator XdmpBlock String}

theorem keeps_start : (⟨0, none, none, none, none⟩ : VerifyState).Keeps none := ⟨rfl, rfl⟩

theorem Accepted.of_verifySequence
    (haccepted : Accepted (verifySequence sha256 decoder stream)) :
    stream.thrown = none ∧ HeaderChain sha256 stream.yielded := by
  obtain ⟨r, hrun, hok⟩ := haccepted
  rw [verifySequence] at hrun
  cases hblocks : verifyBlocks sha256 decoder ⟨0, none, none, none, none⟩ stream.yielded with
  | error result =>
      rw [hblocks] at hrun
      rw [← Except.ok.inj hrun, verifyBlocks_error hblocks] at hok
      cases hok
  | ok state =>
      cases hthrown : stream.thrown with
      | some e =>
          rw [hblocks, hthrown] at hrun
          cases hrun
      | none => exact ⟨rfl, headerChain_iff.mpr (keeps_start.of_verifyBlocks hblocks)⟩

theorem HeaderChain.accepted (hthrown : stream.thrown = none)
    (hchain : HeaderChain sha256 stream.yielded) :
    Accepted (verifySequence sha256 none stream) := by
  obtain ⟨hsound, hlinked⟩ := headerChain_iff.mp hchain
  obtain ⟨state, hblocks⟩ := keeps_start.verifyBlocks_ok hsound hlinked
  refine ⟨⟨true, state.blocksChecked, state.firstHeight, state.lastHeight, none⟩, ?_, rfl⟩
  rw [verifySequence, hblocks, hthrown]

/-- What is accepted with any options is a chain of headers. -/
theorem Accepted.headerChain (haccepted : Accepted (verifyBlockSequence sha256 decode stream opts)) :
    stream.thrown = none ∧ HeaderChain sha256 stream.yielded := by
  unfold verifyBlockSequence at haccepted
  split_ifs at haccepted
  · cases hcoin : opts.coin with
    | none =>
        rw [hcoin] at haccepted
        obtain ⟨r, hrun, -⟩ := haccepted
        cases hrun
    | some coin =>
        rw [hcoin] at haccepted
        exact haccepted.of_verifySequence
  · exact haccepted.of_verifySequence

/-- **Without the Merkle check the chains of headers are all that is accepted.** -/
theorem verifyBlockSequence_accepted_iff
    (decode : String → List UInt8 → Except String (List Hash)) (coin : Option String) :
    Accepted (verifyBlockSequence sha256 decode stream ⟨false, coin⟩) ↔
      stream.thrown = none ∧ HeaderChain sha256 stream.yielded := by
  constructor
  · exact Accepted.headerChain
  · rintro ⟨hthrown, hchain⟩
    exact hchain.accepted hthrown

/-! ### The last hash settles every header -/

/-- The hash of the last block. -/
def lastHash (blocks : List XdmpBlock) : Option (List UInt8) :=
  blocks.getLast?.map XdmpBlock.blockHash

/-- No two different headers of the sequences hash to the same value. -/
def NoCollision (sha256 : Bulk.Sha256) (blocks blocks' : List XdmpBlock) : Prop :=
  Set.InjOn (headerHash sha256) {header | ∃ b ∈ blocks ++ blocks', b.header = header}

theorem XdmpBlock.Sound.header_eq {b' : XdmpBlock} (hsound : b.Sound sha256)
    (hsound' : b'.Sound sha256) (hhash : b.blockHash = b'.blockHash) :
    headerHash sha256 b.header = headerHash sha256 b'.header := by
  rw [hsound.hash_eq, hsound'.hash_eq] at hhash
  exact List.reverse_inj.mp hhash

/-- The previous-hash field is part of the header. -/
theorem headerPrev_congr {b' : XdmpBlock} (hheader : b.header = b'.header) :
    headerPrev b = headerPrev b' := by
  rw [headerPrev, headerPrev, ← XdmpBlock.header, ← XdmpBlock.header, hheader]

theorem NoCollision.headers_eq (hdistinct : NoCollision sha256 blocks blocks')
    (hsound : ∀ b ∈ blocks, b.Sound sha256) (hsound' : ∀ b ∈ blocks', b.Sound sha256)
    (hfollows : blocks.IsChain XdmpBlock.Follows) (hfollows' : blocks'.IsChain XdmpBlock.Follows)
    (hlength : blocks.length = blocks'.length) (hlast : lastHash blocks = lastHash blocks') :
    blocks.map XdmpBlock.header = blocks'.map XdmpBlock.header := by
  induction blocks generalizing blocks' with
  | nil =>
      rw [List.eq_nil_of_length_eq_zero hlength.symm]
  | cons b rest ih =>
      obtain ⟨b', rest', rfl⟩ := List.exists_cons_of_length_eq_add_one hlength.symm
      have hlength' : rest.length = rest'.length := Nat.succ.inj hlength
      obtain ⟨hb, hrest⟩ := List.forall_mem_cons.mp hsound
      obtain ⟨hb', hrest'⟩ := List.forall_mem_cons.mp hsound'
      have hmem : b.header ∈ {header | ∃ c ∈ (b :: rest) ++ (b' :: rest'), c.header = header} :=
        ⟨b, List.mem_append_left _ List.mem_cons_self, rfl⟩
      have hmem' : b'.header ∈ {header | ∃ c ∈ (b :: rest) ++ (b' :: rest'), c.header = header} :=
        ⟨b', List.mem_append_right _ List.mem_cons_self, rfl⟩
      have hheader : ∀ heq : b.blockHash = b'.blockHash, b.header = b'.header := by
        intro heq
        exact hdistinct hmem hmem' (hb.header_eq hb' heq)
      -- The blocks after the first agree, and the next of them names the first's hash.
      cases rest with
      | nil =>
          obtain rfl := List.eq_nil_of_length_eq_zero hlength'.symm
          rw [List.map_cons, List.map_cons, hheader (Option.some.inj hlast)]
      | cons next more =>
          obtain ⟨next', more', rfl⟩ := List.exists_cons_of_length_eq_add_one hlength'.symm
          obtain ⟨hlink, hmore⟩ := List.isChain_cons_cons.mp hfollows
          obtain ⟨hlink', hmore'⟩ := List.isChain_cons_cons.mp hfollows'
          have hfewer : NoCollision sha256 (next :: more) (next' :: more') := by
            apply hdistinct.mono
            rintro header ⟨c, hc, rfl⟩
            refine ⟨c, ?_, rfl⟩
            rcases List.mem_append.mp hc with hc | hc
            · exact List.mem_append_left _ (List.mem_cons_of_mem _ hc)
            · exact List.mem_append_right _ (List.mem_cons_of_mem _ hc)
          have hall := ih hfewer hrest hrest' hmore hmore' hlength' (by
            simpa only [lastHash, List.getLast?_cons_cons] using hlast)
          have hnext : next.header = next'.header := (List.cons.inj hall).1
          have hhash : b.blockHash = b'.blockHash := by
            rw [← hlink.2, ← hlink'.2, headerPrev_congr hnext]
          exact congrArg₂ List.cons (hheader hhash) hall

/-! ### Files -/

variable {files files' : List (String × List UInt8)} {ranges : List FileRange}

/-- Every range starts where the one before ends. -/
def ContiguousRanges (ranges : List FileRange) : Prop :=
  ranges.IsChain fun a b => b.firstHeight = a.lastHeight + 1

theorem firstGap_eq_none_iff : firstGap ranges = none ↔ ContiguousRanges ranges := by
  induction ranges with
  | nil => exact iff_of_true rfl .nil
  | cons before rest ih =>
      cases rest with
      | nil => exact iff_of_true rfl (.singleton before)
      | cons range more =>
          rw [firstGap, ContiguousRanges, List.isChain_cons_cons]
          split_ifs with hgap
          · exact iff_of_false not_false fun hall => hgap hall.1
          · exact ih.trans (and_iff_right (not_not.mp hgap)).symm

theorem sortRanges_perm (ranges : List FileRange) : (sortRanges ranges).Perm ranges :=
  List.perm_insertionSort _ _

theorem readRanges_length (hread : readRanges files = .ok ranges) :
    ranges.length = files.length := by
  induction files generalizing ranges with
  | nil =>
      rw [← Except.ok.inj hread]
      rfl
  | cons file rest ih =>
      simp only [readRanges, bind_eq_ok_iff] at hread
      obtain ⟨range, -, others, hothers, hrun⟩ := hread
      rw [← Except.ok.inj hrun, List.length_cons, List.length_cons, ih hothers]

/-- **Sorted ranges are accepted** exactly if they are contiguous and their blocks form a chain. -/
theorem validateRanges_ok_iff {coin : Option String} :
    (validateRanges sha256 decode ⟨false, coin⟩ ranges).ok = true ↔
      ranges ≠ [] ∧ ContiguousRanges ranges ∧ ∃ blocks,
        readFiles (ranges.map FileRange.file) = .ended blocks ∧ HeaderChain sha256 blocks := by
  cases ranges with
  | nil => exact iff_of_false Bool.false_ne_true fun hall => hall.1 rfl
  | cons first rest =>
      rw [validateRanges, ← firstGap_eq_none_iff]
      cases hgap : firstGap (first :: rest) with
      | some gap => exact iff_of_false Bool.false_ne_true fun hall => nomatch hall.2.1
      | none =>
          rw [Generator.exists_eq_ended_iff, ← verifyBlockSequence_accepted_iff decode
            (some (coin.getD first.chain.text))]
          dsimp only
          cases hresult : verifyBlockSequence sha256 decode
              (readFiles ((first :: rest).map FileRange.file))
              ⟨false, some (coin.getD first.chain.text)⟩ with
          | error message =>
              apply iff_of_false Bool.false_ne_true
              rintro ⟨-, -, r, hrun, -⟩
              cases hrun
          | ok result =>
              constructor
              · intro hok
                exact ⟨List.cons_ne_nil _ _, rfl, result, rfl, hok⟩
              · rintro ⟨-, -, r, hrun, hok⟩
                rwa [Except.ok.inj hrun]

theorem readRanges_mem (hread : readRanges files = .ok ranges) {range : FileRange}
    (hmem : range ∈ ranges) : ∃ file ∈ files, readRange file = .ok range := by
  induction files generalizing ranges with
  | nil =>
      rw [← Except.ok.inj hread] at hmem
      cases hmem
  | cons file rest ih =>
      simp only [readRanges, bind_eq_ok_iff] at hread
      obtain ⟨first, hfirst, others, hothers, hrun⟩ := hread
      rw [← Except.ok.inj hrun] at hmem
      rcases List.mem_cons.mp hmem with rfl | hmem
      · exact ⟨file, List.mem_cons_self, hfirst⟩
      · obtain ⟨other, hother, hrange⟩ := ih hothers hmem
        exact ⟨other, List.mem_cons_of_mem _ hother, hrange⟩

theorem readRanges_cons_ok_iff {file : String × List UInt8} :
    readRanges (file :: files) = .ok ranges ↔
      ∃ range others, readRange file = .ok range ∧ readRanges files = .ok others ∧
        ranges = range :: others := by
  simp only [readRanges, bind_eq_ok_iff, Except.ok.injEq]
  constructor
  · rintro ⟨range, hrange, others, hothers, rfl⟩
    exact ⟨range, others, hrange, hothers, rfl⟩
  · rintro ⟨range, others, hrange, hothers, rfl⟩
    exact ⟨range, hrange, others, hothers, rfl⟩

theorem readRanges_perm (hperm : files.Perm files') (hread : readRanges files = .ok ranges) :
    ∃ ranges', readRanges files' = .ok ranges' ∧ ranges'.Perm ranges := by
  induction hperm generalizing ranges with
  | nil => exact ⟨ranges, hread, .refl _⟩
  | cons file _ ih =>
      obtain ⟨range, others, hrange, hothers, rfl⟩ := readRanges_cons_ok_iff.mp hread
      obtain ⟨others', hothers', hrest⟩ := ih hothers
      exact ⟨_, readRanges_cons_ok_iff.mpr ⟨range, others', hrange, hothers', rfl⟩, hrest.cons _⟩
  | swap file file' rest =>
      obtain ⟨range, others, hrange, hothers, rfl⟩ := readRanges_cons_ok_iff.mp hread
      obtain ⟨range', others', hrange', hothers', rfl⟩ := readRanges_cons_ok_iff.mp hothers
      exact ⟨_, readRanges_cons_ok_iff.mpr ⟨range', _, hrange',
        readRanges_cons_ok_iff.mpr ⟨range, others', hrange, hothers', rfl⟩, rfl⟩, .swap _ _ _⟩
  | trans _ _ ih ih' =>
      obtain ⟨between, hbetween, hfirst⟩ := ih hread
      obtain ⟨last, hlast, hsecond⟩ := ih' hbetween
      exact ⟨last, hlast, hsecond.trans hfirst⟩

/-- **The files that are accepted.** -/
theorem validateChainFiles_accepted_iff {coin : Option String} :
    Accepted (validateChainFiles sha256 decode files ⟨false, coin⟩) ↔
      files ≠ [] ∧ ∃ ranges blocks, readRanges files = .ok ranges ∧
        ContiguousRanges (sortRanges ranges) ∧
        readFiles ((sortRanges ranges).map FileRange.file) = .ended blocks ∧
        HeaderChain sha256 blocks := by
  have hempty : ∀ ranges, readRanges files = .ok ranges →
      (sortRanges ranges ≠ [] ↔ files ≠ []) := by
    intro ranges hread
    rw [ne_eq, ne_eq, ← List.length_eq_zero_iff, ← List.length_eq_zero_iff,
      (sortRanges_perm ranges).length_eq, readRanges_length hread]
  constructor
  · rintro ⟨r, hrun, hok⟩
    rw [validateChainFiles, bind_eq_ok_iff] at hrun
    obtain ⟨ranges, hread, hrun⟩ := hrun
    rw [← Except.ok.inj hrun, validateRanges_ok_iff, hempty ranges hread] at hok
    obtain ⟨hne, hcontiguous, blocks, hblocks, hchain⟩ := hok
    exact ⟨hne, ranges, blocks, hread, hcontiguous, hblocks, hchain⟩
  · rintro ⟨hne, ranges, blocks, hread, hcontiguous, hblocks, hchain⟩
    refine ⟨_, bind_of_ok hread _, ?_⟩
    rw [validateRanges_ok_iff, hempty ranges hread]
    exact ⟨hne, hcontiguous, blocks, hblocks, hchain⟩

/-- The file's range holds a block. -/
def HoldsBlock (file : String × List UInt8) : Prop :=
  ∀ range, readRange file = .ok range → range.firstHeight ≤ range.lastHeight

/-- Contiguous ranges that hold blocks have one order only. -/
theorem sortRanges_eq {ranges' : List FileRange} (hperm : ranges'.Perm ranges)
    (hblocks : ∀ range ∈ ranges, range.firstHeight ≤ range.lastHeight)
    (hcontiguous : ContiguousRanges (sortRanges ranges)) : sortRanges ranges' = sortRanges ranges := by
  have hmem : ∀ range ∈ sortRanges ranges, range.firstHeight ≤ range.lastHeight := by
    intro range hrange
    exact hblocks range ((sortRanges_perm ranges).mem_iff.mp hrange)
  have hperm' : (sortRanges ranges').Perm (sortRanges ranges) :=
    ((sortRanges_perm ranges').trans hperm).trans (sortRanges_perm ranges).symm
  have htrans : Trans (fun a b : FileRange => a.firstHeight < b.firstHeight)
      (fun a b : FileRange => a.firstHeight < b.firstHeight)
      (fun a b : FileRange => a.firstHeight < b.firstHeight) := ⟨Nat.lt_trans⟩
  have hstrict : (sortRanges ranges).Pairwise fun a b => a.firstHeight < b.firstHeight := by
    apply List.isChain_iff_pairwise.mp
    apply (List.IsChain.iff_mem.mp hcontiguous).imp
    rintro a b ⟨ha, -, hnext⟩
    have := hmem a ha
    omega
  have hsorted : (sortRanges ranges').Pairwise fun a b => a.firstHeight ≤ b.firstHeight :=
    List.pairwise_insertionSort _ _
  have hdistinct : (sortRanges ranges).Pairwise fun a b => a.firstHeight ≠ b.firstHeight :=
    hstrict.imp Nat.ne_of_lt
  have hsymm : Std.Symm fun a b : FileRange => a.firstHeight ≠ b.firstHeight :=
    ⟨fun _ _ hne => hne.symm⟩
  apply List.Perm.eq_of_pairwise ?_ hsorted (hstrict.imp Nat.le_of_lt) hperm'
  intro a b ha hb hab hba
  by_contra hne
  exact hdistinct.forall (hperm'.mem_iff.mp ha) hb hne (Nat.le_antisymm hab hba)

theorem Accepted.of_perm {coin : Option String} (hperm : files.Perm files')
    (hholds : ∀ file ∈ files, HoldsBlock file)
    (haccepted : Accepted (validateChainFiles sha256 decode files ⟨false, coin⟩)) :
    Accepted (validateChainFiles sha256 decode files' ⟨false, coin⟩) := by
  obtain ⟨hne, ranges, blocks, hread, hcontiguous, hblocks, hchain⟩ :=
    validateChainFiles_accepted_iff.mp haccepted
  obtain ⟨ranges', hread', hperm'⟩ := readRanges_perm hperm hread
  have hranges : ∀ range ∈ ranges, range.firstHeight ≤ range.lastHeight := by
    intro range hmem
    obtain ⟨file, hfile, hrange⟩ := readRanges_mem hread hmem
    exact hholds file hfile range hrange
  have hsame := sortRanges_eq hperm' hranges hcontiguous
  apply validateChainFiles_accepted_iff.mpr
  refine ⟨?_, ranges', blocks, hread', hsame ▸ hcontiguous, hsame ▸ hblocks, hchain⟩
  rintro rfl
  exact hne hperm.eq_nil

/-- **The header chain binds the blocks.** Two accepted sequences of one length with one last hash
have the same headers, unless two of the headers collide. A sequence is accepted without the Merkle
check exactly if it is a chain of headers; some files are accepted exactly if they can be read, their
sorted ranges are contiguous and the blocks of all are a chain; and where every file holds a block
their order does not matter. -/
theorem header_chain_binds (sha256 : Bulk.Sha256)
    (decode : String → List UInt8 → Except String (List Hash)) :
    (∀ (opts opts' : VerifyOpts) (blocks blocks' : List XdmpBlock),
      Accepted (verifyBlockSequence sha256 decode (.ended blocks) opts) →
      Accepted (verifyBlockSequence sha256 decode (.ended blocks') opts') →
      blocks.length = blocks'.length → lastHash blocks = lastHash blocks' →
      NoCollision sha256 blocks blocks' →
      blocks.map XdmpBlock.header = blocks'.map XdmpBlock.header) ∧
    (∀ (coin : Option String) (blocks : List XdmpBlock),
      Accepted (verifyBlockSequence sha256 decode (.ended blocks) ⟨false, coin⟩) ↔
        HeaderChain sha256 blocks) ∧
    (∀ (coin : Option String) (files : List (String × List UInt8)), files ≠ [] →
      (Accepted (validateChainFiles sha256 decode files ⟨false, coin⟩) ↔
        ∃ ranges blocks, readRanges files = .ok ranges ∧ ContiguousRanges (sortRanges ranges) ∧
          readFiles ((sortRanges ranges).map FileRange.file) = .ended blocks ∧
          HeaderChain sha256 blocks)) ∧
    ∀ (coin : Option String) (files files' : List (String × List UInt8)), files.Perm files' →
      (∀ file ∈ files, HoldsBlock file) →
      (Accepted (validateChainFiles sha256 decode files ⟨false, coin⟩) ↔
        Accepted (validateChainFiles sha256 decode files' ⟨false, coin⟩)) := by
  refine ⟨?_, ?_, ?_, ?_⟩
  · intro opts opts' blocks blocks' haccepted haccepted' hlength hlast hdistinct
    obtain ⟨-, hchain⟩ := haccepted.headerChain
    obtain ⟨-, hchain'⟩ := haccepted'.headerChain
    exact hdistinct.headers_eq hchain.sound hchain'.sound hchain.follows hchain'.follows hlength hlast
  · intro coin blocks
    rw [verifyBlockSequence_accepted_iff]
    exact and_iff_right rfl
  · intro coin files hne
    rw [validateChainFiles_accepted_iff]
    exact and_iff_right hne
  · intro coin files files' hperm hholds
    constructor
    · exact Accepted.of_perm hperm hholds
    · apply Accepted.of_perm hperm.symm
      intro file hmem
      exact hholds file (hperm.mem_iff.mpr hmem)

/-! ### Two linked blocks -/

/-- A hash of the last 32 bytes alone. -/
def lastBytes : Bulk.Sha256 := fun _ buf => buf.setWidth 256

def linkedBlock (height : Nat) (prev own : UInt8) (body : List UInt8) : XdmpBlock :=
  { height
    blockHash := own :: List.replicate 31 0
    blockBytes := List.replicate 35 0 ++ prev :: (List.replicate 43 0 ++ own :: body) }

def linkedBlocks (body : List UInt8) : List XdmpBlock :=
  [linkedBlock 0 0 1 body, linkedBlock 1 1 2 body]

/-- A dump file of one block. -/
def linkedFile (height : Nat) (prev own : UInt8) : DumpedFile :=
  { header := ⟨.bitcoin, .regtest, height, height, 12⟩
    blocks := [linkedBlock height prev own []] }

theorem wellFormed_linkedFile {height : Nat} (hheight : height < 2 ^ 32) (prev own : UInt8) :
    (linkedFile height prev own).WellFormed where
  fits := ⟨Nat.le_refl _, hheight, hheight, by simp [HeaderFields.blockCount, linkedFile],
    by simp [linkedFile]⟩
  length_eq := by simp [HeaderFields.blockCount, linkedFile]
  heights := rfl
  admitted := by
    intro b hmem
    obtain rfl := List.mem_singleton.mp hmem
    exact ⟨by simp [linkedBlock], by simp [linkedBlock, MAX_BLOCK_SIZE], by simp [linkedBlock],
      hheight⟩

theorem readRange_linkedFile {height : Nat} (hheight : height < 2 ^ 32) (prev own : UInt8)
    (name : String) : readRange (name, (linkedFile height prev own).bytes) =
      .ok ⟨(name, (linkedFile height prev own).bytes), height, height, .bitcoin⟩ := by
  have hfits := (wellFormed_linkedFile hheight prev own).fits
  rw [readRange, DumpedFile.bytes, HeaderFields.construct_eq hfits]
  rfl

theorem holdsBlock_linkedFile {height : Nat} (hheight : height < 2 ^ 32) (prev own : UInt8)
    (name : String) : HoldsBlock (name, (linkedFile height prev own).bytes) := by
  intro range hread
  rw [readRange_linkedFile hheight] at hread
  obtain rfl := Except.ok.inj hread
  exact Nat.le_refl height

def linkedFiles : List (String × List UInt8) :=
  [("second", (linkedFile 1 1 2).bytes), ("first", (linkedFile 0 0 1).bytes)]

/-- Two sequences that differ behind the headers, and the files of a chain in the wrong order. -/
theorem header_chain_binds_linked :
    (linkedBlocks []).map XdmpBlock.header = (linkedBlocks [9]).map XdmpBlock.header ∧
    HeaderChain lastBytes (linkedBlocks []) ∧
    Accepted (validateChainFiles lastBytes (fun _ _ => .error "") linkedFiles ⟨false, none⟩) ∧
    Accepted (validateChainFiles lastBytes (fun _ _ => .error "") linkedFiles.reverse
      ⟨false, none⟩) := by
  obtain ⟨hbinds, hsequence, hfiles, horder⟩ := header_chain_binds lastBytes fun _ _ => .error ""
  have haccepted : ∀ body ∈ [[], [9]], Accepted (verifyBlockSequence lastBytes
      (fun _ _ => .error "") (.ended (linkedBlocks body)) ⟨false, none⟩) := by
    intro body hmem
    refine ⟨⟨true, 2, some 0, some 1, none⟩, ?_, rfl⟩
    revert body
    decide +kernel
  have hdistinct : NoCollision lastBytes (linkedBlocks []) (linkedBlocks [9]) := by
    have hall : ∀ b ∈ linkedBlocks [] ++ linkedBlocks [9],
        ∀ b' ∈ linkedBlocks [] ++ linkedBlocks [9],
          headerHash lastBytes b.header = headerHash lastBytes b'.header → b.header = b'.header := by
      decide +kernel
    rintro _ ⟨b, hmem, rfl⟩ _ ⟨b', hmem', rfl⟩
    exact hall b hmem b' hmem'
  have hchain := (hsequence none _).mp (haccepted [] List.mem_cons_self)
  have hread : readRanges linkedFiles =
      .ok [⟨("second", (linkedFile 1 1 2).bytes), 1, 1, .bitcoin⟩,
        ⟨("first", (linkedFile 0 0 1).bytes), 0, 0, .bitcoin⟩] := by
    simp only [readRanges, linkedFiles, readRange_linkedFile (show 0 < 2 ^ 32 by decide),
      readRange_linkedFile (show 1 < 2 ^ 32 by decide)]
    rfl
  have hsorted : Accepted (validateChainFiles lastBytes (fun _ _ => .error "") linkedFiles
      ⟨false, none⟩) := by
    refine (hfiles none _ (List.cons_ne_nil _ _)).mpr
      ⟨_, linkedBlocks [], hread, .cons_cons rfl (.singleton _), ?_, hchain⟩
    have hsort : sortRanges [⟨("second", (linkedFile 1 1 2).bytes), 1, 1, .bitcoin⟩,
        ⟨("first", (linkedFile 0 0 1).bytes), 0, 0, .bitcoin⟩] =
          [⟨("first", (linkedFile 0 0 1).bytes), 0, 0, .bitcoin⟩,
            ⟨("second", (linkedFile 1 1 2).bytes), 1, 1, .bitcoin⟩] := rfl
    rw [hsort]
    simp only [List.map_cons, List.map_nil, readFiles,
      (wellFormed_linkedFile (show 0 < 2 ^ 32 by decide) 0 1).readFile_eq,
      (wellFormed_linkedFile (show 1 < 2 ^ 32 by decide) 1 2).readFile_eq]
    rfl
  refine ⟨hbinds _ _ _ _ (haccepted [] List.mem_cons_self) (haccepted [9] (by simp)) rfl rfl
    hdistinct, hchain, hsorted, (horder none _ _ (List.reverse_perm _).symm ?_).mp hsorted⟩
  intro file hmem
  rcases List.mem_pair.mp hmem with rfl | rfl
  · exact holdsBlock_linkedFile (by decide) 1 2 "second"
  · exact holdsBlock_linkedFile (by decide) 0 1 "first"

/-- No files at all are contiguous and form a chain, and are refused. -/
theorem no_files_refused :
    ¬(Accepted (validateChainFiles (fun _ _ => 0) (fun _ _ => .error "") [] ⟨false, none⟩) ↔
      ∃ ranges blocks, readRanges [] = .ok ranges ∧ ContiguousRanges (sortRanges ranges) ∧
        readFiles ((sortRanges ranges).map FileRange.file) = .ended blocks ∧
        HeaderChain (fun _ _ => 0) blocks) := by
  rw [validateChainFiles_accepted_iff]
  intro hiff
  have hchain : HeaderChain (fun _ _ => 0) [] :=
    ⟨fun _ hmem => absurd hmem List.not_mem_nil, (fun _ hb => nomatch hb), .nil⟩
  exact (hiff.mpr ⟨[], [], rfl, .nil, rfl, hchain⟩).1 rfl

end UtxoTracker.Xdmp

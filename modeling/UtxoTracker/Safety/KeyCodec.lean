import UtxoTracker.Store.KeyCodec
/-!
# The key schema and its scans

On well-formed operands a builder gives the same bytes whatever its buffer held, from a text or from
a buffer. A key can be read back from its bytes, so no two keys share them. A range scan reads exactly
the rows whose key begins with its start.
-/

namespace UtxoTracker

open ByteOrder ByteString

/-! ### What a builder writes -/

/-- A 32-byte hash in lower-case digits. -/
def IsHashText (text : List Char) : Prop := text.length = 64 ∧ ∀ c ∈ text, IsDigit c

def KeyOperand.WellFormed : KeyOperand → Prop
  | hash _ hex => IsHashText hex
  | buffer _ buf => buf.length = 32
  | idx n => 0 ≤ n ∧ n < 2 ^ 32

theorem IsHashText.length_ofHex {text : List Char} (htext : IsHashText text) :
    (ofHex text).length = 32 := (toHex_ofHex (n := 32) htext.1 htext.2).2

theorem KeyOperand.WellFormed.length_bytes {operand : KeyOperand} (hwf : operand.WellFormed) :
    operand.bytes.length = operand.width := by
  cases operand with
  | hash field hex => exact IsHashText.length_ofHex hwf
  | buffer field buf => rw [bytes, width, List.take_of_length_le (le_of_eq hwf), hwf]
  | idx n => exact length_toBE 4 _

theorem KeyOperand.WellFormed.check {operand : KeyOperand} (hwf : operand.WellFormed)
    (builder : String) : operand.check builder = .ok () := by
  cases operand with
  | hash field hex => exact if_neg (not_not.mpr hwf.1)
  | buffer field buf => exact if_neg (not_not.mpr hwf)
  | idx n => rfl

theorem checkOperands_ok {operands : List KeyOperand} (hwf : ∀ o ∈ operands, o.WellFormed)
    (builder : String) : checkOperands builder operands = .ok () := by
  induction operands with
  | nil => rfl
  | cons operand rest ih =>
      rw [checkOperands, (hwf operand List.mem_cons_self).check builder]
      exact ih fun o hmem => hwf o (List.mem_cons_of_mem _ hmem)

theorem writeAt_append (before old rest bytes : List UInt8) (hlength : old.length = bytes.length) :
    writeAt (before ++ (old ++ rest)) before.length bytes = before ++ (bytes ++ rest) := by
  have hroom : bytes.length ≤ (before ++ (old ++ rest)).length - before.length := by
    rw [List.length_append, List.length_append]
    omega
  have hdrop : (before ++ (old ++ rest)).drop (before.length + bytes.length) = rest := by
    rw [← List.append_assoc, ← hlength, ← List.length_append, List.drop_left]
  rw [writeAt, List.take_left, List.take_of_length_le hroom, hdrop, List.append_assoc]

/-- The operands fill what is left of the buffer. -/
theorem writeOperands_eq {operands : List KeyOperand} (hwf : ∀ o ∈ operands, o.WellFormed)
    (before rest : List UInt8) (hlength : rest.length = (operands.map KeyOperand.width).sum) :
    writeOperands (before ++ rest) before.length operands =
      before ++ operands.flatMap KeyOperand.bytes := by
  induction operands generalizing before rest with
  | nil =>
      obtain rfl := List.eq_nil_of_length_eq_zero hlength
      rfl
  | cons operand operands ih =>
      have hwidth := (hwf operand List.mem_cons_self).length_bytes
      rw [List.map_cons, List.sum_cons, ← hwidth] at hlength
      have hold : (rest.take operand.bytes.length).length = operand.bytes.length := by
        rw [List.length_take]
        omega
      have hwrite := writeAt_append before _ (rest.drop operand.bytes.length) operand.bytes hold
      rw [List.take_append_drop] at hwrite
      have hrest := ih (fun o hmem => hwf o (List.mem_cons_of_mem _ hmem))
        (before ++ operand.bytes) (rest.drop operand.bytes.length)
        (by rw [List.length_drop]; omega)
      rw [List.append_assoc, List.length_append, hwidth] at hrest
      rw [writeOperands, hwrite, hwidth, hrest, List.flatMap_cons, List.append_assoc]

/-- **On well-formed operands a builder writes the whole buffer.** -/
theorem buildKey_ok {operands : List KeyOperand} (hwf : ∀ o ∈ operands, o.WellFormed)
    (builder : String) (family : UInt8) (allocUnsafe : AllocUnsafe) :
    buildKey builder family operands allocUnsafe =
      .ok (family :: operands.flatMap KeyOperand.bytes) := by
  obtain ⟨buf, hbuf⟩ : ∃ buf, (allocUnsafe (1 + (operands.map KeyOperand.width).sum)).toList = buf :=
    ⟨_, rfl⟩
  have hlength : buf.length = 1 + (operands.map KeyOperand.width).sum := by
    rw [← hbuf, Vector.length_toList]
  rw [buildKey, checkOperands_ok hwf builder, hbuf]
  cases buf with
  | nil =>
      rw [List.length_nil] at hlength
      omega
  | cons first rest =>
      rw [List.length_cons] at hlength
      exact congrArg Except.ok (writeOperands_eq hwf [family] rest (by omega))

/-! ### The bytes of a key -/

theorem hashText_eq (h : Hash) : hashText h = toHex (toBE 32 h.toNat) := (toHex_toBE 32 h.toNat).symm

theorem isHashText_hashText (h : Hash) : IsHashText (hashText h) := by
  refine ⟨HexText.length_write 64 _, fun c hmem => ?_⟩
  rw [hashText_eq] at hmem
  exact isDigit_of_mem_toHex hmem

theorem ofHex_hashText (h : Hash) : ofHex (hashText h) = toBE 32 h.toNat := by
  rw [hashText_eq, ofHex_toHex]

theorem hash_lt (h : Hash) : h.toNat < 256 ^ 32 := h.isLt

/-- Every well-formed text is that of a hash. -/
theorem exists_hashText {text : List Char} (htext : IsHashText text) : ∃ h, hashText h = text := by
  obtain ⟨hback, hlength⟩ := toHex_ofHex (n := 32) htext.1 htext.2
  have hlt := ofBE_lt (ofHex text)
  rw [hlength] at hlt
  refine ⟨BitVec.ofNat 256 (ofBE (ofHex text)), ?_⟩
  have hnat : (BitVec.ofNat 256 (ofBE (ofHex text))).toNat = ofBE (ofHex text) := by
    rw [BitVec.toNat_ofNat]
    exact Nat.mod_eq_of_lt hlt
  rw [hashText_eq, hnat, toBE_ofBE hlength, hback]

/-- The indices of a key fit their field. -/
def Key.WellFormed : Key → Prop
  | .input _ i | .output _ _ i | .outHint _ i | .inHint _ _ i | .outDel _ _ _ i | .hintDel _ _ i
  | .outBlk _ _ i => i < 2 ^ 32
  | _ => True

def hashBytes (h : Hash) : List UInt8 := toBE 32 h.toNat

def idxBytes (i : Nat) : List UInt8 := toBE 4 i

/-- The schema: the byte of each family and the operands behind it. -/
def Key.bytes : Key → List UInt8
  | .block h => P_BLOCK :: hashBytes h
  | .tx t => P_TX :: hashBytes t
  | .input t i => P_INPUT :: (hashBytes t ++ idxBytes i)
  | .output s t i => P_OUTPUT :: (hashBytes s ++ (hashBytes t ++ idxBytes i))
  | .outHint t i => P_OUT_HINT :: (hashBytes t ++ idxBytes i)
  | .inHint t p i => P_IN_HINT :: (hashBytes t ++ (hashBytes p ++ idxBytes i))
  | .scriptBlk s => P_SCRIPT_BLK :: hashBytes s
  | .blkScript h s => P_BLK_SCRIPT :: (hashBytes h ++ hashBytes s)
  | .outDel h s t i => P_OUT_DEL :: (hashBytes h ++ (hashBytes s ++ (hashBytes t ++ idxBytes i)))
  | .hintDel h t i => P_HINT_DEL :: (hashBytes h ++ (hashBytes t ++ idxBytes i))
  | .storedBlk h => P_STORED_BLK :: hashBytes h
  | .outBlk h t i => P_OUT_BLK :: (hashBytes h ++ (hashBytes t ++ idxBytes i))
  | .txExact t => P_TX_EXACT :: hashBytes t
  | .txBlockRecovery h t => P_TX_BLOCK_RECOVERY :: (hashBytes h ++ hashBytes t)
  | .pendingCleanup => P_PENDING_CLEANUP_KEY
  | .undoWatermark => Q_UNDO_WATERMARK_KEY
  | .haltMarker => R_HALT_MARKER_KEY
  | .lastBlockHash => PREFIX_LAST_BLOCK_HASH
  | .lastBlockHeight => PREFIX_LAST_BLOCK_HEIGHT
  | .layoutVersion => PREFIX_LAYOUT_VERSION

theorem KeyOperand.wellFormed_hashText (field : String) (h : Hash) :
    (KeyOperand.hash field (hashText h)).WellFormed := isHashText_hashText h

theorem KeyOperand.wellFormed_idx {i : Nat} (hi : i < 2 ^ 32) :
    (KeyOperand.idx (i : Int)).WellFormed := ⟨Int.natCast_nonneg i, by exact_mod_cast hi⟩

theorem KeyOperand.bytes_hashText (field : String) (h : Hash) :
    (KeyOperand.hash field (hashText h)).bytes = hashBytes h := ofHex_hashText h

theorem KeyOperand.bytes_idx {i : Nat} (hi : i < 2 ^ 32) :
    (KeyOperand.idx (i : Int)).bytes = idxBytes i := by
  rw [bytes, idxBytes]
  congr 1
  omega

/-- **The builders write the schema.** -/
theorem Key.build_eq {key : Key} (hwf : key.WellFormed) (allocUnsafe : AllocUnsafe) :
    key.build allocUnsafe = .ok key.bytes := by
  cases key <;>
    simp_all [Key.build, Key.bytes, Key.WellFormed, kBlock, kTx, kInput, kOutput, kOutHint, kInHint,
      kScriptBlk, kBlkScript, kOutDel, kHintDel, kStoredBlk, kOutBlk, kTxExact, kTxBlockRecovery,
      buildKey_ok, KeyOperand.wellFormed_hashText, KeyOperand.wellFormed_idx,
      KeyOperand.bytes_hashText, KeyOperand.bytes_idx]

/-! ### Reading a key back -/

@[simp] theorem length_hashBytes (h : Hash) : (hashBytes h).length = 32 := length_toBE 32 _

@[simp] theorem length_idxBytes (i : Nat) : (idxBytes i).length = 4 := length_toBE 4 _

/-- The hash at the start of a field and what follows it. -/
def readHash (bytes : List UInt8) : Hash := BitVec.ofNat 256 (ofBE (bytes.take 32))

theorem readHash_append (h : Hash) (rest : List UInt8) : readHash (hashBytes h ++ rest) = h := by
  rw [readHash, List.take_left' (length_hashBytes h), hashBytes, ofBE_toBE_of_lt (hash_lt h),
    BitVec.ofNat_toNat, BitVec.setWidth_eq]

theorem readHash_hashBytes (h : Hash) : readHash (hashBytes h) = h := by
  have hread := readHash_append h []
  rwa [List.append_nil] at hread

theorem ofBE_idxBytes {i : Nat} (hi : i < 2 ^ 32) : ofBE (idxBytes i) = i :=
  ofBE_toBE_of_lt (show i < 256 ^ 4 from hi)

/-- The key that bytes of the schema stand for. -/
def Key.ofBytes (bytes : List UInt8) : Key :=
  let family := bytes.headD 0
  let first := readHash bytes.tail
  let second := readHash (bytes.tail.drop 32)
  let third := readHash ((bytes.tail.drop 32).drop 32)
  if family = P_BLOCK then .block first
  else if family = P_TX then .tx first
  else if family = P_INPUT then .input first (ofBE (bytes.tail.drop 32))
  else if family = P_OUTPUT then .output first second (ofBE ((bytes.tail.drop 32).drop 32))
  else if family = P_OUT_HINT then .outHint first (ofBE (bytes.tail.drop 32))
  else if family = P_IN_HINT then .inHint first second (ofBE ((bytes.tail.drop 32).drop 32))
  else if family = P_SCRIPT_BLK then .scriptBlk first
  else if family = P_BLK_SCRIPT then .blkScript first second
  else if family = P_OUT_DEL then
    .outDel first second third (ofBE (((bytes.tail.drop 32).drop 32).drop 32))
  else if family = P_HINT_DEL then .hintDel first second (ofBE ((bytes.tail.drop 32).drop 32))
  else if family = P_STORED_BLK then .storedBlk first
  else if family = P_OUT_BLK then .outBlk first second (ofBE ((bytes.tail.drop 32).drop 32))
  else if family = P_TX_EXACT then .txExact first
  else if family = P_TX_BLOCK_RECOVERY then .txBlockRecovery first second
  else if bytes = P_PENDING_CLEANUP_KEY then .pendingCleanup
  else if bytes = Q_UNDO_WATERMARK_KEY then .undoWatermark
  else if bytes = R_HALT_MARKER_KEY then .haltMarker
  else if bytes = PREFIX_LAST_BLOCK_HASH then .lastBlockHash
  else if bytes = PREFIX_LAST_BLOCK_HEIGHT then .lastBlockHeight
  else .layoutVersion

/-- **A key is read back from its bytes.** -/
theorem Key.ofBytes_bytes {key : Key} (hwf : key.WellFormed) : Key.ofBytes key.bytes = key := by
  cases key with
  | pendingCleanup | undoWatermark | haltMarker | lastBlockHash | lastBlockHeight | layoutVersion =>
      decide
  | _ =>
      simp_all [Key.ofBytes, Key.bytes, Key.WellFormed, readHash_append, readHash_hashBytes,
        ofBE_idxBytes, P_BLOCK, P_TX, P_INPUT, P_OUTPUT, P_OUT_HINT, P_IN_HINT,
        P_SCRIPT_BLK, P_BLK_SCRIPT, P_OUT_DEL, P_HINT_DEL, P_STORED_BLK, P_OUT_BLK, P_TX_EXACT,
        P_TX_BLOCK_RECOVERY]

theorem Key.length_bytes_le (key : Key) : key.bytes.length ≤ maxKeyLen := by
  cases key with
  | pendingCleanup | undoWatermark | haltMarker | lastBlockHash | lastBlockHeight | layoutVersion =>
      decide
  | _ => simp [Key.bytes, maxKeyLen]

/-! ### Texts and buffers -/

theorem KeyOperand.bytes_ofHex {text : List Char} (htext : IsHashText text)
    (field field' : String) : (KeyOperand.buffer field (ByteString.ofHex text)).bytes =
      (KeyOperand.hash field' text).bytes :=
  List.take_of_length_le (le_of_eq htext.length_ofHex)

/-- Two builders of one family, one of which takes the script as a buffer. -/
theorem buildKey_fromBuf {script : List Char} {before after : List KeyOperand}
    (hscript : IsHashText script) (hbefore : ∀ o ∈ before, o.WellFormed) (hafter : ∀ o ∈ after, o.WellFormed)
    (builder builder' field field' : String) (family : UInt8)
    (allocUnsafe allocUnsafe' : AllocUnsafe) :
    buildKey builder family (before ++ .buffer field (ofHex script) :: after) allocUnsafe =
      buildKey builder' family (before ++ .hash field' script :: after) allocUnsafe' := by
  have hwf : ∀ o : KeyOperand, o.WellFormed → ∀ p ∈ before ++ o :: after, p.WellFormed := by
    intro o ho p hp
    rcases List.mem_append.mp hp with hp | hp
    · exact hbefore p hp
    · rcases List.mem_cons.mp hp with rfl | hp
      · exact ho
      · exact hafter p hp
  have hbuffer : (KeyOperand.buffer field (ofHex script)).WellFormed := hscript.length_ofHex
  have htext : (KeyOperand.hash field' script).WellFormed := hscript
  rw [buildKey_ok (hwf _ hbuffer), buildKey_ok (hwf _ htext),
    List.flatMap_append, List.flatMap_append, List.flatMap_cons, List.flatMap_cons,
    KeyOperand.bytes_ofHex hscript field field']

/-- The builders of a family that takes a script give the same key from its text and its buffer. -/
def FromBufAgrees (allocUnsafe allocUnsafe' : AllocUnsafe) : Prop :=
  ∀ (blockHash script txid : List Char) (idx : Int), IsHashText blockHash → IsHashText script →
    IsHashText txid → 0 ≤ idx → idx < 2 ^ 32 →
    kScriptBlkFromBuf allocUnsafe (ofHex script) = kScriptBlk allocUnsafe' script ∧
    kBlkScriptFromBuf allocUnsafe blockHash (ofHex script) =
      kBlkScript allocUnsafe' blockHash script ∧
    kOutputFromBuf allocUnsafe (ofHex script) txid idx = kOutput allocUnsafe' script txid idx ∧
    kOutDelFromBuf allocUnsafe blockHash (ofHex script) txid idx =
      kOutDel allocUnsafe' blockHash script txid idx

theorem fromBufAgrees (allocUnsafe allocUnsafe' : AllocUnsafe) :
    FromBufAgrees allocUnsafe allocUnsafe' := by
  intro blockHash script txid idx hblock hscript htxid hidx hidx'
  have hblocks : ∀ o ∈ [KeyOperand.hash "blockHash" blockHash], o.WellFormed := by
    intro o hmem
    rw [List.mem_singleton.mp hmem]
    exact hblock
  have hrest : ∀ o ∈ [KeyOperand.hash "txid" txid, .idx idx], o.WellFormed := by
    intro o hmem
    rcases List.mem_cons.mp hmem with rfl | hmem
    · exact htxid
    · rw [List.mem_singleton.mp hmem]
      exact ⟨hidx, hidx'⟩
  have hnone : ∀ o ∈ ([] : List KeyOperand), o.WellFormed := fun o hmem => nomatch hmem
  exact ⟨buildKey_fromBuf hscript hnone hnone _ _ _ _ _ _ _,
    buildKey_fromBuf hscript hblocks hnone _ _ _ _ _ _ _,
    buildKey_fromBuf hscript hnone hrest _ _ _ _ _ _ _,
    buildKey_fromBuf hscript hblocks hrest _ _ _ _ _ _ _⟩

/-! ### Scans -/

/-- The bounds of a scan enclose the keys that begin with its start. -/
theorem between_rangeEnd_iff {start bytes : List UInt8} (hlength : bytes.length ≤ maxKeyLen) :
    (bytewiseLe start bytes = true ∧ bytewiseLe bytes (rangeEnd start) = true) ↔
      start <+: bytes := by
  apply between_iff_starts
  omega

/-- The rows of a store: every key is one of the schema. -/
def SchemaRows (rows : List (List UInt8 × List UInt8)) : Prop :=
  ∀ row ∈ rows, ∃ key : Key, key.WellFormed ∧ row.1 = key.bytes

theorem iterator_eq {rows : List (List UInt8 × List UInt8)} (hrows : SchemaRows rows)
    (start : List UInt8) :
    iterator rows start = rows.filter fun row => decide (start <+: row.1) := by
  apply List.filter_congr
  intro row hmem
  obtain ⟨key, -, hkey⟩ := hrows row hmem
  rw [Bool.eq_iff_iff, Bool.and_eq_true, decide_eq_true_iff]
  exact between_rangeEnd_iff (hkey ▸ key.length_bytes_le)

theorem pushValues_none (rows : List (List UInt8 × List UInt8))
    (values : List (List Char × List Char)) :
    pushValues none rows values = .ok (values ++ rows.map fun row => (toHex row.1, toHex row.2)) := by
  induction rows generalizing values with
  | nil => rw [pushValues, List.map_nil, List.append_nil]
  | cons row rest ih => rw [pushValues, ih, List.map_cons, List.append_assoc, List.singleton_append]

theorem pushValues_some {bound : Nat} (rows : List (List UInt8 × List UInt8))
    {values : List (List Char × List Char)} (hroom : values.length ≤ bound) :
    pushValues (some bound) rows values =
      if bound < values.length + rows.length then .error (.addressTooLarge bound)
      else .ok (values ++ rows.map fun row => (toHex row.1, toHex row.2)) := by
  induction rows generalizing values with
  | nil =>
      rw [pushValues, List.length_nil, if_neg (by omega), List.map_nil, List.append_nil]
  | cons row rest ih =>
      rw [pushValues]
      by_cases hfull : bound ≤ values.length
      · rw [if_pos hfull, if_pos (by rw [List.length_cons]; omega)]
      · rw [if_neg hfull, ih (by rw [List.length_append, List.length_singleton]; omega),
          List.length_append, List.length_singleton, List.length_cons, List.map_cons,
          List.append_assoc, List.singleton_append, Nat.add_right_comm, Nat.add_assoc]

/-- The values a pattern scan gives: the rows whose key begins with the pattern, unless it is too
short or they are too many. -/
def rowsUnderPattern (rows : List (List UInt8 × List UInt8)) (pattern : List UInt8)
    (maxValues : Option Nat) : Except PatternError (List (List Char × List Char)) :=
  let found := rows.filter fun row => decide (pattern <+: row.1)
  if pattern.length < 2 then
    .error (.badRequest "pattern must decode to at least 2 bytes of key prefix")
  else if ∃ bound ∈ maxValues, bound < found.length then
    .error (.addressTooLarge (maxValues.getD 0))
  else .ok (found.map fun row => (toHex row.1, toHex row.2))

theorem getValuesFromKeyPattern_eq {rows : List (List UInt8 × List UInt8)} (hrows : SchemaRows rows)
    (pattern : List UInt8 ⊕ List Char) (maxValues : Option Nat) :
    getValuesFromKeyPattern rows pattern maxValues =
      rowsUnderPattern rows (pattern.elim id ofHex) maxValues := by
  rw [getValuesFromKeyPattern, rowsUnderPattern, iterator_eq hrows]
  split_ifs with hshort hfull
  · rfl
  · obtain ⟨bound, hbound, hlt⟩ := hfull
    obtain rfl : maxValues = some bound := hbound
    rw [pushValues_some _ (Nat.zero_le _), List.length_nil, Nat.zero_add, if_pos hlt]
    rfl
  · cases maxValues with
    | none => exact pushValues_none _ []
    | some bound =>
        rw [pushValues_some _ (Nat.zero_le _), List.length_nil, Nat.zero_add,
          if_neg fun hlt => hfull ⟨bound, rfl, hlt⟩]
        rfl

/-- **The key schema and its scans are exact.** A well-formed key is built whatever the buffer held,
and no other key has its bytes; a text and a buffer build the same key; and a scan reads exactly the
keys that begin with its start. -/
theorem key_schema_exact :
    (∀ text, IsHashText text ↔ ∃ h, hashText h = text) ∧
    (∀ (key : Key) (allocUnsafe : AllocUnsafe), key.WellFormed →
      ∃ bytes, key.build allocUnsafe = .ok bytes) ∧
    (∀ (key key' : Key) (allocUnsafe allocUnsafe' : AllocUnsafe) (bytes : List UInt8),
      key.WellFormed → key'.WellFormed → key.build allocUnsafe = .ok bytes →
        key'.build allocUnsafe' = .ok bytes → key = key') ∧
    (∀ allocUnsafe allocUnsafe', FromBufAgrees allocUnsafe allocUnsafe') ∧
    (∀ (key : Key) (allocUnsafe : AllocUnsafe) (bytes start : List UInt8), key.WellFormed →
      key.build allocUnsafe = .ok bytes →
        ((bytewiseLe start bytes = true ∧ bytewiseLe bytes (rangeEnd start) = true) ↔
          start <+: bytes)) ∧
    ∀ rows, SchemaRows rows → (∀ start,
      iterator rows start = rows.filter fun row => decide (start <+: row.1)) ∧
      ∀ pattern maxValues, getValuesFromKeyPattern rows pattern maxValues =
        rowsUnderPattern rows (pattern.elim id ofHex) maxValues := by
  refine ⟨fun text => ⟨exists_hashText, ?_⟩, fun key alloc hwf => ⟨_, Key.build_eq hwf alloc⟩, ?_,
    fromBufAgrees, ?_, fun rows hrows => ⟨iterator_eq hrows, getValuesFromKeyPattern_eq hrows⟩⟩
  · rintro ⟨h, rfl⟩
    exact isHashText_hashText h
  · intro key key' alloc alloc' bytes hwf hwf' hbuild hbuild'
    rw [Key.build_eq hwf, Except.ok.injEq] at hbuild
    rw [Key.build_eq hwf', Except.ok.injEq] at hbuild'
    calc key = Key.ofBytes key.bytes := (Key.ofBytes_bytes hwf).symm
      _ = Key.ofBytes key'.bytes := by rw [hbuild, hbuild']
      _ = key' := Key.ofBytes_bytes hwf'
  · intro key alloc bytes start hwf hbuild
    rw [Key.build_eq hwf, Except.ok.injEq] at hbuild
    exact between_rangeEnd_iff (hbuild ▸ key.length_bytes_le)

/-- An output under each of two scripts: a scan under the first script reads its output alone. -/
theorem key_schema_exact_twoScripts :
    (Key.output 7 1 0).bytes ≠ (Key.output 8 1 0).bytes ∧
    iterator [((Key.output 7 1 0).bytes, [1]), ((Key.output 8 1 0).bytes, [2])]
      ((Key.output 7 1 0).bytes.take 33) = [((Key.output 7 1 0).bytes, [1])] := by
  obtain ⟨-, hbuilds, hdistinct, -, -, hscans⟩ := key_schema_exact
  have hwf : ∀ script, (Key.output script 1 0).WellFormed := fun _ => show 0 < 2 ^ 32 by decide
  have hbuilt : ∀ script (allocUnsafe : AllocUnsafe),
      (Key.output script 1 0).build allocUnsafe = .ok (Key.output script 1 0).bytes := by
    intro script allocUnsafe
    obtain ⟨bytes, hbytes⟩ := hbuilds _ allocUnsafe (hwf script)
    rw [hbytes, ← Key.build_eq (hwf script) allocUnsafe, hbytes]
  constructor
  · intro heq
    have hkey := hdistinct _ _ (fun size => .replicate size 0xAA) (fun size => .replicate size 0) _
      (hwf 7) (hwf 8) (hbuilt 7 _) (heq ▸ hbuilt 8 _)
    exact absurd hkey (by decide)
  · rw [(hscans _ ?_).1]
    · decide
    · intro row hmem
      rcases List.mem_pair.mp hmem with rfl | rfl
      · exact ⟨_, hwf 7, rfl⟩
      · exact ⟨_, hwf 8, rfl⟩

end UtxoTracker

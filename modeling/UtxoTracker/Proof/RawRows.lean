import UtxoTracker.Safety.KeyOrder
import UtxoTracker.Safety.ValueCodec
import UtxoTracker.Store.Cleanup
import UtxoTracker.Store.MempoolDiff
import UtxoTracker.Store.Queries
import UtxoTracker.Store.RawRows
/-!
# Scans of raw rows

What the store's code does with raw rows, cutting hashes out of keys and joining them into others,
is what the model does with keys and values. Over the same database each scan stages the same
writes, byte for byte and in the same order.
-/

namespace UtxoTracker

open KeyedStore ByteString ByteOrder

namespace RawStore

/-! ### Fields of a key -/

theorem slice_append (before field rest : List UInt8) {start stop : Nat}
    (hstart : before.length = start) (hstop : start + field.length = stop) :
    slice (before ++ (field ++ rest)) start stop = field := by
  have hfull : (before ++ field).length = stop := by rw [List.length_append, hstart, hstop]
  rw [slice, ← List.append_assoc, List.take_left' hfull, List.drop_left' hstart]

theorem slice_second (first : UInt8) (h t : Hash) (rest : List UInt8) :
    slice (first :: (hashBytes h ++ (hashBytes t ++ rest))) 33 65 = hashBytes t :=
  slice_append (first :: hashBytes h) _ rest (by simp) (by simp)

theorem slice_idx (first : UInt8) (h t : Hash) (i : Nat) :
    slice (first :: (hashBytes h ++ (hashBytes t ++ idxBytes i))) 65 69 = idxBytes i := by
  have hsplit : first :: (hashBytes h ++ (hashBytes t ++ idxBytes i)) =
      (first :: (hashBytes h ++ hashBytes t)) ++ (idxBytes i ++ []) := by simp
  rw [hsplit]
  exact slice_append _ _ [] (by simp) (by simp)

theorem slice_hintIdx (first : UInt8) (t : Hash) (i : Nat) :
    slice (first :: (hashBytes t ++ idxBytes i)) 33 37 = idxBytes i := by
  have hsplit : first :: (hashBytes t ++ idxBytes i) =
      (first :: hashBytes t) ++ (idxBytes i ++ []) := by simp
  rw [hsplit]
  exact slice_append _ _ [] (by simp) (by simp)

theorem ofHex_hashText_eq (h : Hash) : ofHex (hashText h) = hashBytes h := ofHex_hashText h

theorem toHex_hashBytes (h : Hash) : toHex (hashBytes h) = hashText h := (hashText_eq h).symm

theorem hashText_injective : Function.Injective hashText := by
  intro h h' htext
  have hbytes := congrArg ofHex htext
  rw [ofHex_hashText_eq, ofHex_hashText_eq] at hbytes
  rw [← readHash_hashBytes h, hbytes, readHash_hashBytes]

theorem decodeTx_append (h : Hash) (rest : List UInt8) :
    decodeTx (hashBytes h ++ rest) = hashText h := by
  rw [decodeTx, ← toHex_hashBytes]
  exact congrArg toHex (slice_append [] (hashBytes h) rest rfl (by simp))

/-- The block of a `T` or an `X` record. -/
theorem decodeTx_bytes {value : Value} {blockHash : Hash}
    (hdecode : UtxoTracker.decodeTx value = some blockHash) :
    decodeTx value.bytes = hashText blockHash := by
  cases value with
  | txRecord b t =>
      obtain rfl : b = blockHash := Option.some.inj hdecode
      exact decodeTx_append b _
  | hash h =>
      obtain rfl : h = blockHash := Option.some.inj hdecode
      have hread := decodeTx_append h []
      rwa [List.append_nil] at hread
  | _ => cases hdecode

end RawStore

/-! ### The keys of each scan -/

namespace Key

variable {key : Key} {h : Hash}

theorem starts_outDel_iff :
    P_OUT_DEL :: hashBytes h <+: key.bytes ↔ ∃ s t i, key = .outDel h s t i := by
  rw [starts_iff (by decide)]
  cases key <;> simp [family, operands, family_bytes, BitVec.toNat_inj]

theorem starts_hintDel_iff :
    P_HINT_DEL :: hashBytes h <+: key.bytes ↔ ∃ t i, key = .hintDel h t i := by
  rw [starts_iff (by decide)]
  cases key <;> simp [family, operands, family_bytes, BitVec.toNat_inj]

theorem starts_outBlk_iff :
    P_OUT_BLK :: hashBytes h <+: key.bytes ↔ ∃ t i, key = .outBlk h t i := by
  rw [starts_iff (by decide)]
  cases key <;> simp [family, operands, family_bytes, BitVec.toNat_inj]

theorem starts_blkScript_iff :
    P_BLK_SCRIPT :: hashBytes h <+: key.bytes ↔ ∃ s, key = .blkScript h s := by
  rw [starts_iff (by decide)]
  cases key <;> simp [family, operands, family_bytes, BitVec.toNat_inj]

theorem starts_txBlockRecovery_iff :
    P_TX_BLOCK_RECOVERY :: hashBytes h <+: key.bytes ↔ ∃ t, key = .txBlockRecovery h t := by
  rw [starts_iff (by decide)]
  cases key <;> simp [family, operands, family_bytes, BitVec.toNat_inj]

theorem starts_inHint_iff :
    P_IN_HINT :: hashBytes h <+: key.bytes ↔ ∃ p i, key = .inHint h p i := by
  rw [starts_iff (by decide)]
  cases key <;> simp [family, operands, family_bytes, BitVec.toNat_inj]

theorem starts_outHint_iff :
    P_OUT_HINT :: hashBytes h <+: key.bytes ↔ ∃ i, key = .outHint h i := by
  rw [starts_iff (by decide)]
  cases key <;> simp [family, operands, family_bytes, BitVec.toNat_inj]

theorem starts_output_iff :
    P_OUTPUT :: hashBytes h <+: key.bytes ↔ ∃ t i, key = .output h t i := by
  rw [starts_iff (by decide)]
  cases key <;> simp [family, operands, family_bytes, BitVec.toNat_inj]

theorem starts_storedBlk_iff : [P_STORED_BLK] <+: key.bytes ↔ ∃ h, key = .storedBlk h := by
  rw [starts_family_iff]
  cases key <;> simp [family, family_bytes]

end Key

/-! ### Staged writes -/

/-- The bytes of a write. -/
def encodeWrite : WriteOp Value → WriteOp (List UInt8)
  | .put value => .put value.bytes
  | .del => .del

@[simp] theorem encodeWrite_put (value : Value) : encodeWrite (.put value) = .put value.bytes := rfl

@[simp] theorem encodeWrite_del : encodeWrite .del = .del := rfl

def encodeOp (op : Key × WriteOp Value) : RawStore.Op := (op.1.bytes, encodeWrite op.2)

/-- A store after the writes that raw rows stage. -/
def StagesRaw (σ σ' : LevelUpStore) (raw : List RawStore.Op) : Prop :=
  ∃ ops, σ' = σ.addTransactions ops ∧ (∀ op ∈ ops, op.1.WellFormed) ∧ raw = ops.map encodeOp

/-- The kinds of value that the scans and the point reads of a rollback find under each key. -/
def Key.Holds : Key → Value → Prop
  | .tx _, value => ∃ blockHash, decodeTx value = some blockHash
  | .txExact _, value => ∃ blockHash, value = .hash blockHash
  | .outHint _ _, value | .outBlk _ _ _, value => ∃ script, value = .hash script
  | .output _ _ _, value =>
      ∃ record, value = .output record ∧ record.v < 2 ^ 64 ∧ -2 ^ 31 ≤ record.h ∧
        record.h < 2 ^ 31
  | _, _ => True

def Typed (db : Db) : Prop :=
  ∀ (key : Key) (value : Value), db[key]? = some value → key.Holds value

section Scans

variable {db : Db} {rows : List RawStore.Row} (hdisk : OnDisk db rows) (htyped : Typed db)

include hdisk

/-- A scan stages what the raw rows stage when it does so entry by entry. -/
theorem stagesRaw_iterator {γ : Type} {start : List UInt8} {accept : Key → Value → Option γ}
    {raw : RawStore.Row → List RawStore.Op} {ops : γ → List (Key × WriteOp Value)}
    {σ : LevelUpStore}
    (hread : ∀ (key : Key) (value : Value), db[key]? = some value → key.WellFormed →
      start <+: key.bytes → ∃ c, accept key value = some c ∧
        raw (encodeRow (key, value)) = (ops c).map encodeOp ∧ ∀ op ∈ ops c, op.1.WellFormed)
    (hnone : ∀ (key : Key) (value : Value), ¬ start <+: key.bytes → accept key value = none) :
    StagesRaw σ (σ.addTransactions ((scan db accept).flatMap ops))
      ((iterator rows start).flatMap raw) := by
  refine ⟨_, rfl, ?_, ?_⟩
  · intro op hmem
    obtain ⟨c, hc, hop⟩ := List.mem_flatMap.mp hmem
    obtain ⟨⟨key, value⟩, hentry, haccept⟩ := List.mem_filterMap.mp hc
    have hget : db[key]? = some value := Std.ExtTreeMap.mem_toList_iff_getElem?_eq_some.mp hentry
    by_cases hstart : start <+: key.bytes
    · obtain ⟨c', haccept', -, hwf⟩ :=
        hread key value hget (hdisk.wellFormed key value hget) hstart
      obtain rfl : c' = c := Option.some.inj (haccept'.symm.trans haccept)
      exact hwf op hop
    · rw [hnone key value hstart] at haccept
      cases haccept
  · have hmap : (iterator rows start).map raw = (scan db accept).map fun c => (ops c).map encodeOp := by
      apply hdisk.map_iterator
      · intro key value hget hstart
        obtain ⟨c, haccept, hraw, -⟩ :=
          hread key value hget (hdisk.wellFormed key value hget) hstart
        exact ⟨c, haccept, hraw⟩
      · intro key value _ hstart
        exact hnone key value hstart
    calc (iterator rows start).flatMap raw = ((iterator rows start).map raw).flatten :=
          List.flatMap_def
      _ = ((scan db accept).map fun c => (ops c).map encodeOp).flatten := by rw [hmap]
      _ = ((scan db accept).flatMap ops).map encodeOp := by rw [List.map_flatMap, List.flatMap_def]

/-! ### Rolling back -/

theorem processDeletedOutputsInDb_raw (σ : LevelUpStore) (hσ : σ.db = db) (blockHash : Hash)
    (recover processOutputHints : Bool) :
    StagesRaw σ (σ.processDeletedOutputsInDb blockHash recover processOutputHints)
      (RawStore.processDeletedOutputsInDb rows (hashText blockHash) recover
        processOutputHints) := by
  subst hσ
  rw [RawStore.processDeletedOutputsInDb, RawStore.ofHex_hashText_eq,
    LevelUpStore.processDeletedOutputsInDb, ← List.flatMap_id]
  cases processOutputHints with
  | false =>
      apply stagesRaw_iterator hdisk
      · intro key value hget hwf hstart
        obtain ⟨s, t, i, rfl⟩ := Key.starts_outDel_iff.mp hstart
        have hidx : i < 4294967296 := hwf
        refine ⟨_, if_pos rfl, ?_, ?_⟩
        · cases recover <;> simp [encodeRow, encodeOp, Key.bytes]
        · cases recover <;> simp [Key.WellFormed, hidx]
      · intro key value hstart
        cases key with
        | outDel h s t i =>
            exact if_neg fun heq => hstart (Key.starts_outDel_iff.mpr ⟨s, t, i, by rw [heq]⟩)
        | _ => rfl
  | true =>
      apply stagesRaw_iterator hdisk
      · intro key value hget hwf hstart
        obtain ⟨t, i, rfl⟩ := Key.starts_hintDel_iff.mp hstart
        have hidx : i < 4294967296 := hwf
        refine ⟨_, if_pos rfl, ?_, ?_⟩
        · cases recover <;> simp [encodeRow, encodeOp, Key.bytes]
        · cases recover <;> simp [Key.WellFormed, hidx]
      · intro key value hstart
        cases key with
        | hintDel h t i =>
            exact if_neg fun heq => hstart (Key.starts_hintDel_iff.mpr ⟨t, i, by rw [heq]⟩)
        | _ => rfl

theorem removeCreatedOutputsInBlock_raw (htyped : Typed db) (σ : LevelUpStore) (hσ : σ.db = db)
    (blockHash : Hash) :
    StagesRaw σ (σ.removeCreatedOutputsInBlock blockHash)
      (RawStore.removeCreatedOutputsInBlock rows (hashText blockHash)) := by
  subst hσ
  rw [RawStore.removeCreatedOutputsInBlock, RawStore.ofHex_hashText_eq]
  apply stagesRaw_iterator hdisk
  · intro key value hget hwf hstart
    obtain ⟨t, i, rfl⟩ := Key.starts_outBlk_iff.mp hstart
    obtain ⟨script, rfl⟩ := htyped _ _ hget
    have hidx : i < 4294967296 := hwf
    refine ⟨(script, t, i), if_pos rfl, ?_, ?_⟩
    · simp [encodeRow, encodeOp, Key.bytes, Value.bytes, RawStore.slice_second,
        RawStore.slice_idx]
    · simp [Key.WellFormed, hidx]
  · intro key value hstart
    cases key with
    | outBlk h t i =>
        exact if_neg fun heq => hstart (Key.starts_outBlk_iff.mpr ⟨t, i, by rw [heq]⟩)
    | _ => rfl

/-- The records of the scripts, whose removal also forgets the known scripts. -/
theorem blkScripts_raw (σ : LevelUpStore) (hσ : σ.db = db) (blockHash : Hash) :
    StagesRaw σ
      (σ.addTransactions ((scan σ.db (LevelUpStore.blkScriptEntry blockHash)).flatMap fun script =>
        [(Key.scriptBlk script, WriteOp.del), (.blkScript blockHash script, .del)]))
      (RawStore.removeOutputScriptsInBlock rows (hashText blockHash)) := by
  subst hσ
  rw [RawStore.removeOutputScriptsInBlock, RawStore.ofHex_hashText_eq]
  apply stagesRaw_iterator hdisk
  · intro key value hget _ hstart
    obtain ⟨s, rfl⟩ := Key.starts_blkScript_iff.mp hstart
    refine ⟨s, if_pos rfl, ?_, ?_⟩
    · simp [encodeRow, encodeOp, Key.bytes]
    · simp [Key.WellFormed]
  · intro key value hstart
    cases key with
    | blkScript h s =>
        exact if_neg fun heq => hstart (Key.starts_blkScript_iff.mpr ⟨s, by rw [heq]⟩)
    | _ => rfl

/-- The byte of a per-block index. -/
def indexFamily : LevelUpStore.BlockIndex → UInt8
  | .outBlk => P_OUT_BLK
  | .blkScript => P_BLK_SCRIPT
  | .txBlockRecovery => P_TX_BLOCK_RECOVERY

theorem removeIndexOnly_raw (σ : LevelUpStore) (hσ : σ.db = db) (blockHash : Hash)
    (index : LevelUpStore.BlockIndex) :
    StagesRaw σ (σ.removeIndexOnly blockHash index)
      (RawStore.removeIndexOnly rows (indexFamily index) (hashText blockHash)) := by
  subst hσ
  rw [RawStore.removeIndexOnly, RawStore.ofHex_hashText_eq, LevelUpStore.removeIndexOnly,
    List.map_eq_flatMap, ← List.flatMap_singleton' (scan σ.db (index.entry blockHash))]
  apply stagesRaw_iterator hdisk
  · intro key value hget hwf hstart
    refine ⟨(key, .del), ?_, rfl, fun op hmem => by rwa [List.mem_singleton.mp hmem]⟩
    cases index with
    | outBlk =>
        obtain ⟨t, i, rfl⟩ := Key.starts_outBlk_iff.mp hstart
        exact if_pos rfl
    | blkScript =>
        obtain ⟨s, rfl⟩ := Key.starts_blkScript_iff.mp hstart
        exact if_pos rfl
    | txBlockRecovery =>
        obtain ⟨t, rfl⟩ := Key.starts_txBlockRecovery_iff.mp hstart
        exact if_pos rfl
  · intro key value hstart
    cases index with
    | outBlk =>
        cases key with
        | outBlk h t i =>
            exact if_neg fun heq => hstart (Key.starts_outBlk_iff.mpr ⟨t, i, by rw [heq]⟩)
        | _ => rfl
    | blkScript =>
        cases key with
        | blkScript h s =>
            exact if_neg fun heq => hstart (Key.starts_blkScript_iff.mpr ⟨s, by rw [heq]⟩)
        | _ => rfl
    | txBlockRecovery =>
        cases key with
        | txBlockRecovery h t =>
            exact if_neg fun heq => hstart (Key.starts_txBlockRecovery_iff.mpr ⟨t, by rw [heq]⟩)
        | _ => rfl

/-! ### The transactions of a block -/

theorem get_raw {key : Key} (hwf : key.WellFormed) :
    RawStore.get rows key.bytes = db[key]?.map Value.bytes := hdisk.find? hwf

theorem owner_raw (htyped : Typed db) {key : Key} (hwf : key.WellFormed) (blockHash : Hash)
    (hholds : ∀ value, key.Holds value → ∃ h, decodeTx value = some h) :
    (RawStore.get rows key.bytes).map RawStore.decodeTx = some (hashText blockHash) ↔
      db[key]?.bind decodeTx = some blockHash := by
  rw [get_raw hdisk hwf]
  cases hget : db[key]? with
  | none => simp
  | some value =>
      obtain ⟨h, hdecode⟩ := hholds value (htyped key value hget)
      rw [Option.map_some, Option.map_some, RawStore.decodeTx_bytes hdecode, Option.bind_some, hdecode,
        Option.some.injEq, Option.some.injEq]
      exact RawStore.hashText_injective.eq_iff

theorem deleteTxBlockRecord_raw (htyped : Typed db) (σ : LevelUpStore) (hσ : σ.db = db)
    (txid blockHash : Hash) :
    RawStore.deleteTxBlockRecord rows (hashText txid) (hashText blockHash) =
      (σ.deleteTxBlockRecordOps blockHash txid).map encodeOp := by
  subst hσ
  have hrecovery : P_TX_BLOCK_RECOVERY :: (hashBytes blockHash ++ hashBytes txid) =
      (Key.txBlockRecovery blockHash txid).bytes := rfl
  have htx : P_TX :: hashBytes txid = (Key.tx txid).bytes := rfl
  have hexact : P_TX_EXACT :: hashBytes txid = (Key.txExact txid).bytes := rfl
  have howner := owner_raw hdisk htyped (show (Key.tx txid).WellFormed from trivial) blockHash
    fun value hholds => hholds
  have hownerExact := owner_raw hdisk htyped (show (Key.txExact txid).WellFormed from trivial)
    blockHash fun value ⟨h, hvalue⟩ => ⟨h, hvalue ▸ rfl⟩
  have hget := get_raw hdisk (show (Key.txBlockRecovery blockHash txid).WellFormed from trivial)
  rw [RawStore.deleteTxBlockRecord, LevelUpStore.deleteTxBlockRecordOps]
  simp only [RawStore.ofHex_hashText_eq, hrecovery, htx, hexact, hget, howner, hownerExact]
  cases σ.db[Key.txBlockRecovery blockHash txid]? with
  | none => simp [RawStore.deleteTransaction, LevelUpStore.deleteTransactionOps, encodeOp,
      RawStore.ofHex_hashText_eq, htx, hexact]
  | some value =>
      simp only [Option.map_some, List.map_append, apply_ite (List.map encodeOp), List.map_cons,
        List.map_nil, encodeOp, encodeWrite_del]

omit hdisk in
/-- Injective texts keep what is a duplicate. -/
theorem eraseDups_map {α β : Type} [BEq α] [LawfulBEq α] [BEq β] [LawfulBEq β] {f : α → β}
    (hinj : Function.Injective f) (as : List α) : (as.map f).eraseDups = as.eraseDups.map f := by
  induction hlength : as.length using Nat.strong_induction_on generalizing as with
  | _ n ih =>
      cases as with
      | nil => rfl
      | cons a rest =>
          have hfilter : (rest.map f).filter (fun b => !b == f a) =
              (rest.filter fun b => !b == a).map f := by
            rw [List.filter_map]
            congr 1
            apply List.filter_congr
            intro b _
            rw [Bool.eq_iff_iff]
            simp [hinj.eq_iff]
          have hless : (rest.filter fun b => !b == a).length < n := by
            rw [← hlength]
            exact Nat.lt_succ_of_le (List.length_filter_le _ _)
          rw [List.map_cons, List.eraseDups_cons, List.eraseDups_cons, hfilter, List.map_cons,
            ih _ hless _ rfl]

omit hdisk in
/-- The loop stages the records of each txid that it has not seen, at its first row. -/
theorem deleteTransactionsLoop_eq (blockHash : List Char) (walked : List RawStore.Row)
    (seenTxids : List (List Char)) :
    RawStore.deleteTransactionsLoop rows blockHash walked seenTxids =
      ((walked.map fun row => toHex (RawStore.slice row.1 33 65)).filter
        (· ∉ seenTxids)).eraseDups.flatMap (RawStore.deleteTxBlockRecord rows · blockHash) := by
  induction walked generalizing seenTxids with
  | nil => rfl
  | cons row rest ih =>
      rw [List.map_cons]
      by_cases hseen : toHex (RawStore.slice row.1 33 65) ∈ seenTxids
      · refine (if_pos hseen).trans ?_
        rw [ih, List.filter_cons_of_neg (by simpa using hseen)]
      · refine (if_neg hseen).trans ?_
        rw [ih, List.filter_cons_of_pos (by simpa using hseen), List.eraseDups_cons,
          List.flatMap_cons, List.filter_filter]
        congr 3
        apply List.filter_congr
        intro txid _
        rw [Bool.eq_iff_iff]
        simp [and_comm]

omit hdisk in
theorem LevelUpStore.wellFormed_deleteTxBlockRecordOps (σ : LevelUpStore) (blockHash txid : Hash) :
    ∀ op ∈ σ.deleteTxBlockRecordOps blockHash txid, op.1.WellFormed := by
  intro op hmem
  rw [LevelUpStore.deleteTxBlockRecordOps] at hmem
  cases hrecovery : σ.db[Key.txBlockRecovery blockHash txid]? with
  | none =>
      rw [hrecovery] at hmem
      simp [LevelUpStore.deleteTransactionOps] at hmem
      rcases hmem with rfl | rfl <;> trivial
  | some value =>
      rw [hrecovery] at hmem
      simp only [List.mem_append, List.mem_ite_nil_right, List.mem_singleton] at hmem
      rcases hmem with (⟨-, rfl⟩ | ⟨-, rfl⟩) | rfl <;> trivial

theorem deleteTransactionsInBlock_raw (htyped : Typed db) (σ : LevelUpStore) (hσ : σ.db = db)
    (blockHash : Hash) :
    StagesRaw σ (σ.deleteTransactionsInBlock blockHash)
      (RawStore.deleteTransactionsInBlock rows (hashText blockHash)) := by
  have htxids : ((iterator rows (P_OUT_BLK :: hashBytes blockHash)).map fun row =>
      toHex (RawStore.slice row.1 33 65)) =
        (scan db (LevelUpStore.outBlkTxid blockHash)).map hashText := by
    apply hdisk.map_iterator
    · intro key value hget hstart
      obtain ⟨t, i, rfl⟩ := Key.starts_outBlk_iff.mp hstart
      refine ⟨t, if_pos rfl, ?_⟩
      rw [encodeRow, Key.bytes, RawStore.slice_second, RawStore.toHex_hashBytes]
    · intro key value hget hstart
      cases key with
      | outBlk h t i =>
          exact if_neg fun heq => hstart (Key.starts_outBlk_iff.mpr ⟨t, i, by rw [heq]⟩)
      | _ => rfl
  refine ⟨_, rfl, ?_, ?_⟩
  · intro op hmem
    obtain ⟨txid, -, hop⟩ := List.mem_flatMap.mp hmem
    exact σ.wellFormed_deleteTxBlockRecordOps blockHash txid op hop
  · rw [RawStore.deleteTransactionsInBlock, RawStore.ofHex_hashText_eq,
      deleteTransactionsLoop_eq, htxids, LevelUpStore.outBlkTxids, hσ,
      List.filter_eq_self.mpr fun _ _ => by simp, eraseDups_map RawStore.hashText_injective,
      List.flatMap_map, List.map_flatMap]
    congr 1
    funext txid
    exact deleteTxBlockRecord_raw hdisk htyped σ hσ txid blockHash

/-! ### The mempool store -/

theorem deleteInputsByHint_raw (σ : LevelUpStore) (hσ : σ.db = db) (txid : Hash) :
    StagesRaw σ (MempoolDiff.deleteInputsByHint σ txid).2
      (RawStore.deleteInputsByHint rows (hashText txid)) := by
  subst hσ
  rw [RawStore.deleteInputsByHint, RawStore.ofHex_hashText_eq]
  apply stagesRaw_iterator hdisk
  · intro key value hget hwf hstart
    obtain ⟨p, i, rfl⟩ := Key.starts_inHint_iff.mp hstart
    have hidx : i < 4294967296 := hwf
    refine ⟨(p, i), if_pos rfl, ?_, ?_⟩
    · simp [encodeRow, encodeOp, Key.bytes, MempoolDiff.deleteInputsByHintOps,
        RawStore.slice_second, RawStore.slice_idx]
    · simp [MempoolDiff.deleteInputsByHintOps, Key.WellFormed, hidx]
  · intro key value hstart
    cases key with
    | inHint h p i =>
        exact if_neg fun heq => hstart (Key.starts_inHint_iff.mpr ⟨p, i, by rw [heq]⟩)
    | _ => rfl

theorem deleteOutputsByHint_raw (htyped : Typed db) (σ : LevelUpStore) (hσ : σ.db = db)
    (txid : Hash) :
    StagesRaw σ (MempoolDiff.deleteOutputsByHint σ txid).2
      (RawStore.deleteOutputsByHint rows (hashText txid)) := by
  subst hσ
  rw [RawStore.deleteOutputsByHint, RawStore.ofHex_hashText_eq]
  apply stagesRaw_iterator hdisk
  · intro key value hget hwf hstart
    obtain ⟨i, rfl⟩ := Key.starts_outHint_iff.mp hstart
    obtain ⟨script, rfl⟩ := htyped _ _ hget
    have hidx : i < 4294967296 := hwf
    refine ⟨(script, i), if_pos rfl, ?_, ?_⟩
    · simp [encodeRow, encodeOp, Key.bytes, Value.bytes, MempoolDiff.deleteOutputsByHintOps,
        RawStore.slice_hintIdx]
    · simp [MempoolDiff.deleteOutputsByHintOps, Key.WellFormed, hidx]
  · intro key value hstart
    cases key with
    | outHint h i =>
        exact if_neg fun heq => hstart (Key.starts_outHint_iff.mpr ⟨i, by rw [heq]⟩)
    | _ => rfl

/-! ### Reads -/

theorem getLastStoredBlocks_raw (σ : LevelUpStore) (hσ : σ.db = db) :
    RawStore.getLastStoredBlocks rows = σ.getLastStoredBlocks.map hashText := by
  subst hσ
  apply hdisk.map_iterator
  · intro key value hget hstart
    obtain ⟨h, rfl⟩ := Key.starts_storedBlk_iff.mp hstart
    exact ⟨h, rfl, RawStore.toHex_hashBytes h⟩
  · intro key value hget hstart
    cases key with
    | storedBlk h => exact absurd (Key.starts_storedBlk_iff.mpr ⟨h, rfl⟩) hstart
    | _ => rfl

omit hdisk in
/-- The rows of the cursor's script strictly after the cursor. -/
theorem starts_of_after {key : Key} {script txid : Hash} {vout : Nat}
    (hafter : bytewiseLe key.bytes (Key.output script txid vout).bytes = false)
    (hend : bytewiseLe key.bytes (rangeEnd (P_OUTPUT :: hashBytes script)) = true) :
    P_OUTPUT :: hashBytes script <+: key.bytes := by
  have hstart : bytewiseLe (P_OUTPUT :: hashBytes script) (Key.output script txid vout).bytes =
      true := le_append (P_OUTPUT :: hashBytes script) (hashBytes txid ++ idxBytes vout)
  have hkey : bytewiseLe (P_OUTPUT :: hashBytes script) key.bytes = true := by
    rcases le_total key.bytes (P_OUTPUT :: hashBytes script) with hle | hle
    · rw [ByteOrder.le_trans hle hstart] at hafter
      cases hafter
    · exact hle
  exact (between_rangeEnd_iff key.length_bytes_le).mp ⟨hkey, hend⟩

/-- The row of a query as the raw walk gives it. -/
def rawOutput (row : OutputRow) : RawStore.Output :=
  ⟨hashText row.txid, row.vout,
    { v := Nat.repr row.value
      h := row.height
      t := row.fullTxid.map hashText
      cb := row.coinbase }⟩

omit hdisk in
/-- One `O` row. -/
theorem readOutput_raw {script txid : Hash} {vout : Nat} {record : OutputRecord}
    (hvout : vout < 2 ^ 32) (hvalue : record.v < 2 ^ 64) (hge : -2 ^ 31 ≤ record.h)
    (hlt : record.h < 2 ^ 31) :
    RawStore.readOutput (encodeRow (.output script txid vout, .output record)) =
      .ok (rawOutput (OutputRow.ofRecord txid vout record)) := by
  let f : ValueCodec.Fields :=
    { value := record.v
      value_lt := hvalue
      height := record.h
      height_ge := hge
      height_lt := hlt
      txid := hashBytes record.t
      length_txid := length_hashBytes record.t
      coinbase := record.cb }
  have hdecoded : ValueCodec.decodeOutput (Value.output record).bytes = .ok f.decoded :=
    f.decodeOutput_bytes
  have hzero : toHex (hashBytes record.t) = ValueCodec.ZERO_HASH ↔ record.t = 0 := by
    have hzeroText : ValueCodec.ZERO_HASH = hashText 0 := by decide
    rw [RawStore.toHex_hashBytes, hzeroText]
    exact RawStore.hashText_injective.eq_iff
  have htxid : (if toHex (hashBytes record.t) = ValueCodec.ZERO_HASH then none
      else some (toHex (hashBytes record.t))) =
        (if record.t = 0 then none else some record.t).map hashText := by
    by_cases h : record.t = 0
    · rw [if_pos (hzero.mpr h), if_pos h, Option.map_none]
    · rw [if_neg (mt hzero.mp h), if_neg h, Option.map_some, RawStore.toHex_hashBytes]
  rw [RawStore.readOutput, encodeRow, hdecoded, Fallible.bind_of_ok rfl, Key.bytes,
    RawStore.slice_second, RawStore.slice_idx, RawStore.toHex_hashBytes, ofBE_idxBytes hvout,
    rawOutput, OutputRow.ofRecord, ← htxid]
  rfl

theorem outputsAfter_raw (htyped : Typed db) (script : Hash) (after : Option (Hash × Nat))
    (hafter : ∀ cursor ∈ after, cursor.2 < 2 ^ 32) :
    RawStore.outputsAfter rows (hashText script)
        (after.map fun cursor => (hashText cursor.1, cursor.2)) =
      .ok ((scan db (outputRowAccept script after)).map rawOutput) := by
  have hmap : (RawStore.pageIterator rows (P_OUTPUT :: hashBytes script)
      (after.map fun cursor => (Key.output script cursor.1 cursor.2).bytes)).map
        RawStore.readOutput =
      (scan db (outputRowAccept script after)).map fun row => .ok (rawOutput row) := by
    have hread : ∀ (key : Key) (value : Value), db[key]? = some value →
        P_OUTPUT :: hashBytes script <+: key.bytes →
        (∀ cursor ∈ after, compare (Key.output script cursor.1 cursor.2) key = .lt) →
        ∃ c, outputRowAccept script after key value = some c ∧
          RawStore.readOutput (encodeRow (key, value)) = .ok (rawOutput c) := by
      intro key value hget hstart horder
      obtain ⟨t, i, rfl⟩ := Key.starts_output_iff.mp hstart
      obtain ⟨record, rfl, hvalue, hge, hlt⟩ := htyped _ _ hget
      exact ⟨_, if_pos ⟨rfl, horder⟩,
        readOutput_raw (hdisk.wellFormed _ _ hget) hvalue hge hlt⟩
    have hnone : ∀ (key : Key) (value : Value),
        ¬ (P_OUTPUT :: hashBytes script <+: key.bytes ∧
          ∀ cursor ∈ after, compare (Key.output script cursor.1 cursor.2) key = .lt) →
        outputRowAccept script after key value = none := by
      intro key value hnot
      cases key with
      | output s t i =>
          apply if_neg
          rintro ⟨rfl, horder⟩
          exact hnot ⟨Key.starts_output_iff.mpr ⟨t, i, rfl⟩, horder⟩
      | _ => rfl
    cases after with
    | none =>
        apply hdisk.map_iterator
        · intro key value hget hstart
          exact hread key value hget hstart fun cursor hmem => nomatch hmem
        · intro key value _ hstart
          exact hnone key value fun hboth => hstart hboth.1
    | some cursor =>
        have hbound : (Key.output script cursor.1 cursor.2).WellFormed := hafter cursor rfl
        apply hdisk.map_filter
        · intro key value hget hmeets
          rw [Bool.and_eq_true, Bool.not_eq_true'] at hmeets
          have horder := (Key.not_bytes_le_iff (hdisk.wellFormed key value hget) hbound).mp hmeets.1
          apply hread key value hget (starts_of_after hmeets.1 hmeets.2)
          intro other hmem
          obtain rfl : cursor = other := Option.some.inj hmem
          exact horder
        · intro key value hget hmeets
          apply hnone
          rintro ⟨hstart, horder⟩
          rw [Bool.and_eq_true, Bool.not_eq_true'] at hmeets
          apply hmeets
          exact ⟨(Key.not_bytes_le_iff (hdisk.wellFormed key value hget) hbound).mpr
            (horder cursor rfl), ((between_rangeEnd_iff key.length_bytes_le).mpr hstart).2⟩
  have hbounds : (after.map fun cursor => (hashText cursor.1, cursor.2)).map
      (fun cursor => P_OUTPUT :: hashBytes script ++ (ofHex cursor.1 ++ toBE 4 cursor.2)) =
        after.map fun cursor => (Key.output script cursor.1 cursor.2).bytes := by
    cases after with
    | none => rfl
    | some cursor =>
        rw [Option.map_some, Option.map_some, Option.map_some, RawStore.ofHex_hashText_eq]
        rfl
  rw [RawStore.outputsAfter, RawStore.ofHex_hashText_eq, hbounds]
  exact Fallible.mapM_eq_ok (by rw [hmap, List.map_map]; rfl)

end Scans

end UtxoTracker

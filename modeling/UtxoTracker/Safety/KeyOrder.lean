import Mathlib.Data.List.Sort
import UtxoTracker.Lib.FieldBytes
import UtxoTracker.Safety.KeyCodec
import UtxoTracker.Store.RawRows
/-!
# The order of the store

The database on disk is ordered by the bytes of its keys, the modelled one by their fields. The two
orders are one, so every range scan meets the same rows in the same order in both.
-/

namespace UtxoTracker

open ByteOrder ByteString

namespace Key

/-- The byte a key begins with. -/
def family : Key → UInt8
  | .block _ => P_BLOCK
  | .tx _ => P_TX
  | .input _ _ => P_INPUT
  | .output _ _ _ => P_OUTPUT
  | .outHint _ _ => P_OUT_HINT
  | .inHint _ _ _ => P_IN_HINT
  | .scriptBlk _ => P_SCRIPT_BLK
  | .blkScript _ _ => P_BLK_SCRIPT
  | .outDel _ _ _ _ => P_OUT_DEL
  | .hintDel _ _ _ => P_HINT_DEL
  | .storedBlk _ => P_STORED_BLK
  | .outBlk _ _ _ => P_OUT_BLK
  | .txExact _ => P_TX_EXACT
  | .txBlockRecovery _ _ => P_TX_BLOCK_RECOVERY
  | .pendingCleanup => 0x50
  | .undoWatermark => 0x51
  | .haltMarker => 0x52
  | .lastBlockHash | .lastBlockHeight | .layoutVersion => 0x4C

/-- The operands behind the family's byte, each with its width. -/
def operands : Key → List (Nat × Nat)
  | .block h | .tx h | .scriptBlk h | .storedBlk h | .txExact h => [(32, h.toNat)]
  | .input h i | .outHint h i => [(32, h.toNat), (4, i)]
  | .output h h' i | .inHint h h' i | .hintDel h h' i | .outBlk h h' i =>
      [(32, h.toNat), (32, h'.toNat), (4, i)]
  | .blkScript h h' | .txBlockRecovery h h' => [(32, h.toNat), (32, h'.toNat)]
  | .outDel h s t i => [(32, h.toNat), (32, s.toNat), (32, t.toNat), (4, i)]
  | _ => []

theorem family_bytes :
    P_BLOCK = 0x42 ∧ P_TX = 0x54 ∧ P_INPUT = 0x49 ∧ P_OUTPUT = 0x4F ∧ P_OUT_HINT = 0x48 ∧
      P_IN_HINT = 0x4A ∧ P_SCRIPT_BLK = 0x53 ∧ P_BLK_SCRIPT = 0x5A ∧ P_OUT_DEL = 0x4B ∧
      P_HINT_DEL = 0x4D ∧ P_STORED_BLK = 0x4E ∧ P_OUT_BLK = 0x57 ∧ P_TX_EXACT = 0x58 ∧
      P_TX_BLOCK_RECOVERY = 0x59 := by decide

/-- The three keys that are texts. -/
def IsText (key : Key) : Prop := key.family = 0x4C

theorem IsText.eq {key : Key} (htext : key.IsText) :
    key = .lastBlockHash ∨ key = .lastBlockHeight ∨ key = .layoutVersion := by
  cases key with
  | lastBlockHash | lastBlockHeight | layoutVersion => simp
  | _ => simp [IsText, family, family_bytes] at htext

theorem bytes_head (key : Key) : ∃ tail, key.bytes = key.family :: tail := by
  cases key <;> exact ⟨_, rfl⟩

theorem fields_head (key : Key) : ∃ tail, key.fields = key.family.toNat :: tail := by
  cases key <;> exact ⟨_, rfl⟩

theorem bytes_eq {key : Key} (htext : ¬ key.IsText) :
    key.bytes = key.family :: fieldBytes key.operands := by
  cases key with
  | lastBlockHash | lastBlockHeight | layoutVersion => exact absurd rfl htext
  | _ => simp [bytes, family, operands, fieldBytes, hashBytes, idxBytes, P_PENDING_CLEANUP_KEY,
      Q_UNDO_WATERMARK_KEY, R_HALT_MARKER_KEY]

theorem fields_eq {key : Key} (htext : ¬ key.IsText) :
    key.fields = key.family.toNat :: key.operands.map Prod.snd := by
  cases key with
  | lastBlockHash | lastBlockHeight | layoutVersion => exact absurd rfl htext
  | _ => rfl

theorem WellFormed.fits {key : Key} (hwf : key.WellFormed) : Fits key.operands := by
  cases key with
  | block h | tx h | scriptBlk h | storedBlk h | txExact h => exact .cons (hash_lt h) fits_nil
  | input h i | outHint h i => exact .cons (hash_lt h) (.cons hwf fits_nil)
  | output h h' i | inHint h h' i | hintDel h h' i | outBlk h h' i =>
      exact .cons (hash_lt h) (.cons (hash_lt h') (.cons hwf fits_nil))
  | blkScript h h' | txBlockRecovery h h' =>
      exact .cons (hash_lt h) (.cons (hash_lt h') fits_nil)
  | outDel h s t i =>
      exact .cons (hash_lt h) (.cons (hash_lt s) (.cons (hash_lt t) (.cons hwf fits_nil)))
  | _ => exact fits_nil

/-- The widths of a family's operands. -/
def widthsOf (family : UInt8) : List Nat :=
  if family ∈ [P_BLOCK, P_TX, P_SCRIPT_BLK, P_STORED_BLK, P_TX_EXACT] then [32]
  else if family ∈ [P_INPUT, P_OUT_HINT] then [32, 4]
  else if family ∈ [P_OUTPUT, P_IN_HINT, P_HINT_DEL, P_OUT_BLK] then [32, 32, 4]
  else if family ∈ [P_BLK_SCRIPT, P_TX_BLOCK_RECOVERY] then [32, 32]
  else if family = P_OUT_DEL then [32, 32, 32, 4]
  else []

theorem widths_eq (key : Key) : key.operands.map Prod.fst = widthsOf key.family := by
  cases key <;> rfl

/-- **The order of keys is the order of their bytes.** -/
theorem bytes_lt {key key' : Key} (hwf : key'.WellFormed) (hlt : compare key key' = .lt) :
    bytewiseLt key.bytes key'.bytes := by
  have hfields : compare key.fields key'.fields = .lt := hlt
  by_cases hfamily : key.family = key'.family
  · by_cases htext : key.IsText
    · -- The three texts, whose ranks follow their letters.
      have htext' : key'.IsText := hfamily.symm.trans htext
      rcases htext.eq with rfl | rfl | rfl <;> rcases htext'.eq with rfl | rfl | rfl <;>
        first
        | exact ⟨by decide, by decide⟩
        | exact absurd hfields (by decide)
    · have htext' : ¬ key'.IsText := fun h => htext (hfamily.trans h)
      rw [fields_eq htext, fields_eq htext', hfamily, List.compare_cons_cons,
        Ordering.then_eq_lt] at hfields
      rw [bytes_eq htext, bytes_eq htext', hfamily, cons_lt_cons]
      right
      refine ⟨rfl, fieldBytes_lt ?_ hwf.fits ?_⟩
      · rw [widths_eq, widths_eq, hfamily]
      · rcases hfields with hhead | ⟨-, htail⟩
        · exact absurd (Nat.compare_eq_lt.mp hhead) (Nat.lt_irrefl _)
        · exact htail
  · obtain ⟨tail, hbytes⟩ := key.bytes_head
    obtain ⟨tail', hbytes'⟩ := key'.bytes_head
    obtain ⟨vals, hvals⟩ := key.fields_head
    obtain ⟨vals', hvals'⟩ := key'.fields_head
    rw [hvals, hvals', List.compare_cons_cons, Ordering.then_eq_lt] at hfields
    rw [hbytes, hbytes', cons_lt_cons]
    left
    rcases hfields with hhead | ⟨hhead, -⟩
    · exact UInt8.lt_iff_toNat_lt.mpr (Nat.compare_eq_lt.mp hhead)
    · exact absurd (UInt8.toNat_inj.mp (Nat.compare_eq_eq.mp hhead)) hfamily

/-- What an exclusive lower bound lets through. -/
theorem not_bytes_le_iff {key bound : Key} (hwf : key.WellFormed) (hbound : bound.WellFormed) :
    bytewiseLe key.bytes bound.bytes = false ↔ compare bound key = .lt := by
  cases horder : compare bound key with
  | lt =>
      have hlt := bytes_lt hwf horder
      refine iff_of_true ?_ rfl
      rw [Bool.eq_false_iff]
      intro hle
      exact bytewiseLt_asymm hlt ⟨hle, hlt.2.symm⟩
  | eq =>
      obtain rfl : bound = key := Std.LawfulEqOrd.eq_of_compare horder
      simp [ByteOrder.le_refl]
  | gt =>
      have hlt := bytes_lt hbound (Std.OrientedCmp.lt_of_gt horder)
      simp [hlt.1]

theorem bytes_injective {key key' : Key} (hwf : key.WellFormed) (hwf' : key'.WellFormed)
    (hbytes : key.bytes = key'.bytes) : key = key' :=
  calc key = ofBytes key.bytes := (ofBytes_bytes hwf).symm
    _ = ofBytes key'.bytes := by rw [hbytes]
    _ = key' := ofBytes_bytes hwf'

/-! ### The keys of one scan -/

theorem operands_head (key : Key) :
    key.operands = [] ∨ ∃ (h : Hash) (rest : List (Nat × Nat)),
      key.operands = (32, h.toNat) :: rest := by
  cases key with
  | pendingCleanup | undoWatermark | haltMarker | lastBlockHash | lastBlockHeight | layoutVersion =>
      exact Or.inl rfl
  | _ => exact Or.inr ⟨_, _, rfl⟩

/-- Is a key under a family's byte and a hash? -/
theorem starts_iff {key : Key} {first : UInt8} (hfirst : first ≠ 0x4C) (h : Hash) :
    first :: hashBytes h <+: key.bytes ↔
      key.family = first ∧ ∃ rest, key.operands = (32, h.toNat) :: rest := by
  constructor
  · intro hstart
    obtain ⟨tail, hbytes⟩ := key.bytes_head
    have hfamily : key.family = first := by
      rw [hbytes, List.cons_prefix_cons] at hstart
      exact hstart.1.symm
    have htext : ¬ key.IsText := fun htext => hfirst (hfamily.symm.trans htext)
    rw [bytes_eq htext, List.cons_prefix_cons] at hstart
    refine ⟨hfamily, ?_⟩
    rcases key.operands_head with hnone | ⟨h', rest, hoperands⟩
    · rw [hnone] at hstart
      have hlong := hstart.2.length_le
      rw [length_hashBytes] at hlong
      exact absurd hlong (by decide)
    · rw [hoperands] at hstart
      obtain ⟨more, hmore⟩ := hstart.2
      have hread := congrArg readHash hmore
      have hread' : readHash (fieldBytes ((32, h'.toNat) :: rest)) = h' := readHash_append h' _
      rw [readHash_append, hread'] at hread
      exact ⟨rest, hread ▸ hoperands⟩
  · rintro ⟨hfamily, rest, hoperands⟩
    have htext : ¬ key.IsText := fun htext => hfirst (hfamily.symm.trans htext)
    rw [bytes_eq htext, hfamily, hoperands, List.cons_prefix_cons]
    exact ⟨rfl, List.prefix_append _ _⟩

/-- The keys of one family. -/
theorem starts_family_iff {key : Key} {first : UInt8} :
    [first] <+: key.bytes ↔ key.family = first := by
  obtain ⟨tail, hbytes⟩ := key.bytes_head
  rw [hbytes, List.cons_prefix_cons]
  constructor
  · rintro ⟨hhead, -⟩
    exact hhead.symm
  · intro hfamily
    exact ⟨hfamily.symm, tail, rfl⟩

end Key

/-! ### The store on disk -/

/-- `JSON.stringify` of block hashes. -/
def hashListText (hashes : List Hash) : List Char :=
  '[' :: (List.intercalate [','] (hashes.map fun h => '"' :: (hashText h ++ ['"'])) ++ [']'])

/-- The bytes of a value, as the encoders of `value_codec.js` write them. -/
def Value.bytes : Value → List UInt8
  | .block record => toBE 4 record.h.toNat ++ (toBE 4 record.t ++ hashBytes record.ph)
  | .txRecord blockHash fullTxid => hashBytes blockHash ++ hashBytes fullTxid
  | .hash h => hashBytes h
  | .output record =>
      toBE 8 record.v ++ (toIntBE 4 record.h ++
        (hashBytes record.t ++ if record.cb then [1] else []))
  | .scriptBlk height => toBE 4 height.toNat
  | .empty => []
  | .hexText n => asciiBytes (RawStore.hexNumberText n)
  | .hashText h => asciiBytes (UtxoTracker.hashText h)
  | .hashList hashes => asciiBytes (hashListText hashes)
  | .decimalText n => asciiBytes (Nat.toDigits 10 n)
  | .text s => s.toUTF8.toList

/-- What is on disk of an entry. -/
def encodeRow (entry : Key × Value) : List UInt8 × List UInt8 := (entry.1.bytes, entry.2.bytes)

section Rows

variable {db : Db} {rows : List (List UInt8 × List UInt8)}

/-- The rows on disk: those of the entries, in the order of their bytes. -/
structure OnDisk (db : Db) (rows : List (List UInt8 × List UInt8)) : Prop where
  wellFormed : ∀ (key : Key) (value : Value), db[key]? = some value → key.WellFormed
  sorted : rows.Pairwise fun row row' => bytewiseLt row.1 row'.1
  mem_iff : ∀ row, row ∈ rows ↔
    ∃ (key : Key) (value : Value), db[key]? = some value ∧ row = encodeRow (key, value)

theorem OnDisk.of_toList
    (hwf : ∀ (key : Key) (value : Value), db[key]? = some value → key.WellFormed) :
    OnDisk db (db.toList.map encodeRow) where
  wellFormed := hwf
  sorted := by
    rw [List.pairwise_map]
    refine Std.ExtTreeMap.ordered_keys_toList.imp_of_mem fun {entry entry'} _ hmem hlt => ?_
    apply Key.bytes_lt _ hlt
    exact hwf entry'.1 entry'.2 (Std.ExtTreeMap.mem_toList_iff_getElem?_eq_some.mp hmem)
  mem_iff := by
    intro row
    rw [List.mem_map]
    constructor
    · rintro ⟨⟨key, value⟩, hmem, rfl⟩
      exact ⟨key, value, Std.ExtTreeMap.mem_toList_iff_getElem?_eq_some.mp hmem, rfl⟩
    · rintro ⟨key, value, hget, rfl⟩
      exact ⟨(key, value), Std.ExtTreeMap.mem_toList_iff_getElem?_eq_some.mpr hget, rfl⟩

/-- **There is one such list**, that of the model's entries in the model's order. -/
theorem OnDisk.eq_toList (hdisk : OnDisk db rows) : rows = db.toList.map encodeRow := by
  have hmodel : OnDisk db (db.toList.map encodeRow) := .of_toList hdisk.wellFormed
  have hirrefl : Std.Irrefl fun row row' : List UInt8 × List UInt8 => bytewiseLt row.1 row'.1 :=
    ⟨fun row hlt => hlt.2 rfl⟩
  have hantisymm : Std.Antisymm fun row row' : List UInt8 × List UInt8 => bytewiseLt row.1 row'.1 :=
    ⟨fun row row' hlt hback => absurd hback (bytewiseLt_asymm hlt)⟩
  apply List.Pairwise.eq_of_mem_iff hdisk.sorted hmodel.sorted
  intro row
  rw [hdisk.mem_iff, hmodel.mem_iff]

/-- What is read of the rows that a filter lets through is what the model's scan accepts. -/
theorem OnDisk.map_filter {γ δ : Type} (hdisk : OnDisk db rows)
    {meets : List UInt8 × List UInt8 → Bool} {read : List UInt8 × List UInt8 → δ}
    {accept : Key → Value → Option γ} {view : γ → δ}
    (hread : ∀ (key : Key) (value : Value), db[key]? = some value →
      meets (encodeRow (key, value)) = true →
        ∃ c, accept key value = some c ∧ read (encodeRow (key, value)) = view c)
    (hnone : ∀ (key : Key) (value : Value), db[key]? = some value →
      ¬ meets (encodeRow (key, value)) = true → accept key value = none) :
    (rows.filter meets).map read = (KeyedStore.scan db accept).map view := by
  have hentries : ∀ entry ∈ db.toList, db[entry.1]? = some entry.2 := fun entry hmem =>
    Std.ExtTreeMap.mem_toList_iff_getElem?_eq_some.mp hmem
  rw [hdisk.eq_toList, KeyedStore.scan]
  revert hentries
  induction db.toList with
  | nil => exact fun _ => rfl
  | cons entry rest ih =>
      intro hentries
      obtain ⟨key, value⟩ := entry
      have hget := hentries (key, value) List.mem_cons_self
      have hrest := ih fun other hmem => hentries other (List.mem_cons_of_mem _ hmem)
      by_cases hmeets : meets (encodeRow (key, value)) = true
      · obtain ⟨c, haccept, hview⟩ := hread key value hget hmeets
        rw [List.map_cons, List.filter_cons_of_pos hmeets, List.filterMap_cons, List.map_cons,
          hrest, hview, haccept, List.map_cons]
      · rw [List.map_cons, List.filter_cons_of_neg hmeets, List.filterMap_cons,
          hnone key value hget hmeets, hrest]

/-- The rows under a start. -/
theorem OnDisk.iterator_eq (hdisk : OnDisk db rows) (start : List UInt8) :
    iterator rows start = rows.filter fun row => decide (start <+: row.1) := by
  apply UtxoTracker.iterator_eq
  intro row hmem
  obtain ⟨key, value, hget, rfl⟩ := (hdisk.mem_iff row).mp hmem
  exact ⟨key, hdisk.wellFormed key value hget, rfl⟩

theorem OnDisk.map_iterator {γ δ : Type} (hdisk : OnDisk db rows) {start : List UInt8}
    {read : List UInt8 × List UInt8 → δ} {accept : Key → Value → Option γ} {view : γ → δ}
    (hread : ∀ (key : Key) (value : Value), db[key]? = some value → start <+: key.bytes →
      ∃ c, accept key value = some c ∧ read (encodeRow (key, value)) = view c)
    (hnone : ∀ (key : Key) (value : Value), db[key]? = some value → ¬ start <+: key.bytes →
      accept key value = none) :
    (iterator rows start).map read = (KeyedStore.scan db accept).map view := by
  rw [hdisk.iterator_eq]
  apply hdisk.map_filter
  · intro key value hget hmeets
    exact hread key value hget (of_decide_eq_true hmeets)
  · intro key value hget hmeets
    exact hnone key value hget fun hstart => hmeets (decide_eq_true hstart)

/-- A read of one key. -/
theorem OnDisk.find? (hdisk : OnDisk db rows) {key : Key} (hwf : key.WellFormed) :
    (rows.find? fun row => row.1 = key.bytes).map Prod.snd = db[key]?.map Value.bytes := by
  cases hget : db[key]? with
  | some value =>
      obtain ⟨row, hfind⟩ : ∃ row, rows.find? (fun row => row.1 = key.bytes) = some row := by
        rw [← Option.isSome_iff_exists, List.find?_isSome]
        exact ⟨_, (hdisk.mem_iff _).mpr ⟨key, value, hget, rfl⟩, by simp [encodeRow]⟩
      obtain ⟨key', value', hget', hrow⟩ :=
        (hdisk.mem_iff row).mp (List.mem_of_find?_eq_some hfind)
      have hbytes : row.1 = key.bytes := by simpa using List.find?_some hfind
      have hkey : key' = key := by
        rw [hrow] at hbytes
        exact Key.bytes_injective (hdisk.wellFormed key' value' hget') hwf hbytes
      subst hkey
      rw [hget, Option.some.injEq] at hget'
      rw [hfind, hrow, ← hget']
      rfl
  | none =>
      rw [Option.map_none, Option.map_eq_none_iff, List.find?_eq_none]
      intro row hmem hbytes
      obtain ⟨key', value', hget', rfl⟩ := (hdisk.mem_iff row).mp hmem
      have hkey : key' = key :=
        Key.bytes_injective (hdisk.wellFormed key' value' hget') hwf (of_decide_eq_true hbytes)
      subst hkey
      rw [hget] at hget'
      cases hget'

end Rows

end UtxoTracker

import Mathlib.Data.List.Sort
import Mathlib.Data.List.Basic
import Std.Data.ExtTreeMap
/-!
# Ordered key-value stores with an atomic write batch

A store is a finite map over a linear order of keys. A batch collects one put or delete for each
key and is applied in a single step. Between the two a reader sees the batch laid over the store.
A range scan is an ordered list of the entries that a filter accepts.

Nothing here depends on a particular key or value type.
-/

namespace KeyedStore

/-! ### Orders read off numeric fields -/

section FieldOrder

variable {α : Type*} (fields : α → List Nat)

/-- Compare two keys by their fields, the first difference deciding. On keys of one shape with
fixed-width big-endian fields this is the order of the encoded bytes. -/
@[reducible] def ordOfFields : Ord α := ⟨fun a b => compare (fields a) (fields b)⟩

theorem transOrd_ofFields : @Std.TransOrd α (ordOfFields fields) :=
  inferInstanceAs (Std.TransCmp (compareOn fields))

theorem lawfulEqOrd_ofFields (hinj : Function.Injective fields) :
    @Std.LawfulEqOrd α (ordOfFields fields) :=
  letI := ordOfFields fields
  letI := transOrd_ofFields fields
  { eq_of_compare := by
      intro a b hab
      have hfields : compare (fields a) (fields b) = .eq := hab
      exact hinj (Std.LawfulEqOrd.eq_of_compare hfields) }

end FieldOrder

/-! ### Batches -/

/-- One staged write. -/
inductive WriteOp (β : Type*) where
  | put (value : β)
  | del
  deriving DecidableEq, Repr

variable {κ β γ : Type*} [Ord κ] [Std.TransOrd κ] [Std.LawfulEqOrd κ]

/-- What a reader sees at a key with the pending write `op` over the stored value `old`. -/
def overlay (op : Option (WriteOp β)) (old : Option β) : Option β :=
  match op with
  | some (.put value) => some value
  | some .del => none
  | none => old

@[simp] theorem overlay_none (old : Option β) : overlay none old = old := rfl

@[simp] theorem overlay_put (value : β) (old : Option β) :
    overlay (some (.put value)) old = some value := rfl

@[simp] theorem overlay_del (old : Option β) : overlay (some .del) old = none := rfl

/-- Dropping a key's entries from an association list. -/
theorem lookup_filter {κ β : Type} [BEq κ] [LawfulBEq κ] [DecidableEq κ] (entries : List (κ × β))
    (key other : κ) :
    (entries.filter fun entry => entry.1 ≠ key).lookup other =
      if other = key then none else entries.lookup other := by
  induction entries with
  | nil => simp
  | cons entry rest ih =>
      obtain ⟨first, value⟩ := entry
      by_cases hfirst : first = key
      · subst hfirst
        rw [List.filter_cons_of_neg (by simp), ih]
        by_cases hother : other = first
        · simp [hother]
        · simp [hother, List.lookup_cons, beq_eq_false_iff_ne.mpr hother]
      · rw [List.filter_cons_of_pos (by simpa using hfirst), List.lookup_cons, List.lookup_cons, ih]
        by_cases hother : other = first
        · simp [hother, hfirst]
        · simp [beq_eq_false_iff_ne.mpr hother]

/-- Write one operation through to the store. -/
def applyOp (store : Std.ExtTreeMap κ β) (key : κ) (op : WriteOp β) : Std.ExtTreeMap κ β :=
  match op with
  | .put value => store.insert key value
  | .del => store.erase key

theorem getElem?_applyOp [DecidableEq κ] (store : Std.ExtTreeMap κ β) (key : κ) (op : WriteOp β)
    (k : κ) :
    (applyOp store key op)[k]? = if key = k then overlay (some op) store[k]? else store[k]? := by
  cases op with
  | put value =>
      by_cases hk : key = k <;> simp [applyOp, Std.ExtTreeMap.getElem?_insert, hk]
  | del =>
      by_cases hk : key = k <;> simp [applyOp, Std.ExtTreeMap.getElem?_erase, hk]

/-- Write a whole batch through to the store. -/
def applyBatch (store : Std.ExtTreeMap κ β) (batch : Std.ExtTreeMap κ (WriteOp β)) :
    Std.ExtTreeMap κ β :=
  batch.toList.foldl (fun m entry => applyOp m entry.1 entry.2) store

theorem getElem?_foldl_applyOp [DecidableEq κ] (ops : List (κ × WriteOp β))
    (hnodup : ops.Pairwise fun a b => a.1 ≠ b.1) (store : Std.ExtTreeMap κ β) (k : κ) :
    (ops.foldl (fun m entry => applyOp m entry.1 entry.2) store)[k]? =
      overlay (ops.lookup k) store[k]? := by
  induction ops generalizing store with
  | nil => rfl
  | cons entry rest ih =>
      obtain ⟨key, op⟩ := entry
      have hrest : rest.Pairwise fun a b => a.1 ≠ b.1 := hnodup.of_cons
      rw [List.foldl_cons, ih hrest, getElem?_applyOp]
      by_cases hk : k = key
      · have habsent : rest.lookup k = none := by
          rw [List.lookup_eq_none_iff]
          intro other hother
          have hne : key ≠ other.1 := List.rel_of_pairwise_cons hnodup hother
          simpa [hk] using hne
        subst hk
        simp [habsent]
      · have hk' : key ≠ k := fun heq => hk heq.symm
        have hbeq : (k == key) = false := beq_eq_false_iff_ne.mpr hk
        simp [List.lookup_cons, hbeq, hk']

theorem lookup_toList [DecidableEq κ] (m : Std.ExtTreeMap κ γ) (k : κ) :
    m.toList.lookup k = m[k]? := by
  have hdistinct := m.distinct_keys_toList
  cases hfound : m[k]? with
  | none =>
      rw [List.lookup_eq_none_iff]
      intro entry hentry
      have hget : m[entry.1]? = some entry.2 :=
        Std.ExtTreeMap.mem_toList_iff_getElem?_eq_some.mp hentry
      rw [bne_iff_ne]
      rintro rfl
      simp [hfound] at hget
  | some value =>
      have hmem : (k, value) ∈ m.toList :=
        Std.ExtTreeMap.mem_toList_iff_getElem?_eq_some.mpr hfound
      cases hlookup : m.toList.lookup k with
      | none =>
          rw [List.lookup_eq_none_iff] at hlookup
          simpa using hlookup _ hmem
      | some other =>
          obtain ⟨before, after, hsplit, -⟩ := List.lookup_eq_some_iff.mp hlookup
          have hother : (k, other) ∈ m.toList := by simp [hsplit]
          have hget : m[k]? = some other :=
            Std.ExtTreeMap.mem_toList_iff_getElem?_eq_some.mp hother
          rw [hfound] at hget
          exact hget.symm

/-- **A batch is atomic**: afterwards every key holds what its reader saw before. -/
theorem getElem?_applyBatch [DecidableEq κ] (store : Std.ExtTreeMap κ β)
    (batch : Std.ExtTreeMap κ (WriteOp β)) (k : κ) :
    (applyBatch store batch)[k]? = overlay batch[k]? store[k]? := by
  have hdistinct : batch.toList.Pairwise fun a b => a.1 ≠ b.1 := by
    refine batch.distinct_keys_toList.imp ?_
    intro a b hcompare heq
    exact hcompare (by simp [heq])
  rw [applyBatch, getElem?_foldl_applyOp _ hdistinct, lookup_toList]

/-! ### Staging a list of writes -/

section Staging

variable {κ β : Type*} [Ord κ] [Std.TransOrd κ]

/-- Write a list of entries, a later one replacing an earlier one at the same key. The map is a batch
of writes or the store itself. -/
def stageAll (ops : List (κ × β)) (batch : Std.ExtTreeMap κ β) :
    Std.ExtTreeMap κ β :=
  ops.foldl (fun m entry => m.insert entry.1 entry.2) batch

@[simp] theorem stageAll_nil (batch : Std.ExtTreeMap κ β) : stageAll [] batch = batch :=
  rfl

@[simp] theorem stageAll_cons (key : κ) (op : β) (ops : List (κ × β))
    (batch : Std.ExtTreeMap κ β) :
    stageAll ((key, op) :: ops) batch = stageAll ops (batch.insert key op) := rfl

theorem stageAll_append (first second : List (κ × β))
    (batch : Std.ExtTreeMap κ β) :
    stageAll (first ++ second) batch = stageAll second (stageAll first batch) :=
  List.foldl_append

end Staging

theorem getElem?_stageAll_of_notMem [DecidableEq κ] {ops : List (κ × β)} {k : κ}
    (habsent : ∀ op, (k, op) ∉ ops) (batch : Std.ExtTreeMap κ β) :
    (stageAll ops batch)[k]? = batch[k]? := by
  induction ops generalizing batch with
  | nil => rfl
  | cons entry rest ih =>
      obtain ⟨key, op⟩ := entry
      have hne : key ≠ k := fun heq => habsent op (by simp [heq])
      rw [stageAll_cons, ih fun op' hmem => habsent op' (List.mem_cons_of_mem _ hmem)]
      simp [Std.ExtTreeMap.getElem?_insert, hne]

/-- When every write at `k` is the same, that write is what the batch holds at `k`. -/
theorem getElem?_stageAll_of_mem [DecidableEq κ] {ops : List (κ × β)} {k : κ}
    {op : β} (hmem : (k, op) ∈ ops) (huniq : ∀ op', (k, op') ∈ ops → op' = op)
    (batch : Std.ExtTreeMap κ β) :
    (stageAll ops batch)[k]? = some op := by
  induction ops generalizing batch with
  | nil => cases hmem
  | cons entry rest ih =>
      obtain ⟨key, op₁⟩ := entry
      rw [stageAll_cons]
      by_cases hrest : (k, op) ∈ rest
      · exact ih hrest (fun op' h => huniq op' (List.mem_cons_of_mem _ h)) _
      · have hhead : (k, op) = (key, op₁) := by
          rcases List.mem_cons.mp hmem with heq | hin
          · exact heq
          · exact absurd hin hrest
        obtain ⟨rfl, rfl⟩ := Prod.mk.inj hhead
        have habsent : ∀ op', (k, op') ∉ rest := by
          intro op' hin
          have heq : op' = op := huniq op' (List.mem_cons_of_mem _ hin)
          exact hrest (heq ▸ hin)
        rw [getElem?_stageAll_of_notMem habsent]
        simp

section LastWrite

variable {κ β : Type*} [DecidableEq κ]

/-- The values that a list of entries gives a key, in order. -/
def valuesAt (k : κ) (ops : List (κ × β)) : List β :=
  ops.filterMap fun entry => if entry.1 = k then some entry.2 else none

theorem valuesAt_append (k : κ) (first second : List (κ × β)) :
    valuesAt k (first ++ second) = valuesAt k first ++ valuesAt k second :=
  List.filterMap_append

theorem valuesAt_eq_nil {k : κ} {ops : List (κ × β)} (habsent : ∀ entry ∈ ops, entry.1 ≠ k) :
    valuesAt k ops = [] := by
  rw [valuesAt, List.filterMap_eq_nil_iff]
  exact fun entry hmem => if_neg (habsent entry hmem)

theorem valuesAt_cons (k key : κ) (op : β) (ops : List (κ × β)) :
    valuesAt k ((key, op) :: ops) = if key = k then op :: valuesAt k ops else valuesAt k ops := by
  by_cases hk : key = k <;> simp [valuesAt, hk]

theorem valuesAt_map {ρ : Type*} (k : κ) (row : ρ → κ × β) (records : List ρ) :
    valuesAt k (records.map row) =
      (records.filter fun record => decide ((row record).1 = k)).map fun record => (row record).2 := by
  induction records with
  | nil => rfl
  | cons record rest ih =>
      rw [List.map_cons, valuesAt_cons, ih]
      by_cases hk : (row record).1 = k <;> simp [hk]

/-- **The last write wins.** -/
theorem getElem?_stageAll [Ord κ] [Std.TransOrd κ] [Std.LawfulEqOrd κ] (ops : List (κ × β))
    (batch : Std.ExtTreeMap κ β) (k : κ) :
    (stageAll ops batch)[k]? = (valuesAt k ops).getLast?.or batch[k]? := by
  induction ops generalizing batch with
  | nil => rfl
  | cons entry rest ih =>
      obtain ⟨key, op⟩ := entry
      rw [stageAll_cons, ih, valuesAt_cons]
      by_cases hk : key = k
      · rw [if_pos hk, List.getLast?_cons, hk, Std.ExtTreeMap.getElem?_insert_self]
        cases (valuesAt k rest).getLast? <;> rfl
      · rw [if_neg hk, Std.ExtTreeMap.getElem?_insert, if_neg]
        simpa using hk

end LastWrite

/-! ### Range scans -/

/-- The results of `accept` over the entries of a store, in key order. -/
def scan (store : Std.ExtTreeMap κ β) (accept : κ → β → Option γ) : List γ :=
  store.toList.filterMap fun entry => accept entry.1 entry.2

theorem mem_scan {store : Std.ExtTreeMap κ β} {accept : κ → β → Option γ} {x : γ} :
    x ∈ scan store accept ↔ ∃ k v, store[k]? = some v ∧ accept k v = some x := by
  simp only [scan, List.mem_filterMap, Prod.exists,
    Std.ExtTreeMap.mem_toList_iff_getElem?_eq_some]

/-- Stores that agree where `accept` takes an entry scan alike. -/
theorem scan_congr {store store' : Std.ExtTreeMap κ β} {accept : κ → β → Option γ}
    (hsame : ∀ k, (∃ v x, accept k v = some x) → store'[k]? = store[k]?) :
    scan store' accept = scan store accept := by
  let accepted (entry : κ × β) : Bool := (accept entry.1 entry.2).isSome
  have hscan : ∀ m : Std.ExtTreeMap κ β, scan m accept =
      (m.toList.filter accepted).filterMap fun entry => accept entry.1 entry.2 := by
    intro m
    rw [scan, List.filterMap_filter]
    refine List.filterMap_congr fun entry _ => ?_
    cases haccept : accept entry.1 entry.2 <;> simp [accepted, haccept]
  have hordered : ∀ m : Std.ExtTreeMap κ β, (m.toList.filter accepted).Pairwise fun a b =>
      compare a.1 b.1 = .lt := fun m => (Std.ExtTreeMap.ordered_keys_toList).filter _
  have hirrefl : Std.Irrefl fun a b : κ × β => compare a.1 b.1 = .lt :=
    ⟨fun a => by simp⟩
  have hantisymm : Std.Antisymm fun a b : κ × β => compare a.1 b.1 = .lt :=
    ⟨fun a b hlt hgt => by
      rw [Std.OrientedOrd.eq_swap, hgt] at hlt
      cases hlt⟩
  rw [hscan, hscan]
  congr 1
  refine (hordered store').eq_of_mem_iff (hordered store) fun ⟨k, v⟩ => ?_
  simp only [List.mem_filter, Std.ExtTreeMap.mem_toList_iff_getElem?_eq_some]
  refine and_congr_left fun haccepted => ?_
  obtain ⟨x, hx⟩ := Option.isSome_iff_exists.mp haccepted
  rw [hsame k ⟨_, _, hx⟩]

/-- A scan that reads its result off the key finds each result once. -/
theorem nodup_scan {store : Std.ExtTreeMap κ β} {accept : κ → β → Option γ}
    (hinj : ∀ k v k' v' x, accept k v = some x → accept k' v' = some x → k = k') :
    (scan store accept).Nodup := by
  rw [scan, List.Nodup, List.pairwise_filterMap]
  refine store.distinct_keys_toList.imp ?_
  rintro ⟨k, v⟩ ⟨k', v'⟩ hdistinct x hx x' hx' rfl
  exact hdistinct (by simp [hinj k v k' v' x hx hx'])

end KeyedStore

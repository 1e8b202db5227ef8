import UtxoTracker.Lib.Transition
import UtxoTracker.Proof.MempoolStore
/-!
# The mempool store over a run

Whatever the order of passes and flushes, the `T`, `O`, `H` and `J` records are those of the
transactions stored, and an `I` record names a stored spender. A spent outpoint can lose its `I`
record in one way only: a transaction goes while a conflicting one stays.
-/

namespace UtxoTracker.Mempool

open KeyedStore LevelUpStore MempoolDiff Transition

/-- The records are those of the transactions stored, and an `I` record names one that spends its
outpoint. -/
structure Exact (body : Hash → Tx) (db : Db) : Prop where
  named : ∀ t, (db[Key.tx t]?).isSome → Transparent (body t) ∧ (body t).id = t
  records : ∀ k : Key, (∀ p i, k ≠ .input p i) → db[k]? =
    (owner k).bind fun t => if (db[Key.tx t]?).isSome then recordOf (body t) k else none
  spenders : ∀ p i value, db[Key.input p i]? = some value →
    ∃ t, value = .hash t ∧ (db[Key.tx t]?).isSome ∧ (⟨p, i⟩ : OutPoint) ∈ spends (body t)

/-- Every outpoint that a stored transaction spends has its `I` record. -/
def Marked (db : Db) : Prop :=
  ∀ t p i, (db[Key.inHint t p i]?).isSome → (db[Key.input p i]?).isSome

/-- A transaction goes while one that spends the same outpoint stays. -/
def Clashes (db db' : Db) : Prop :=
  ∃ p i t t', (db[Key.inHint t p i]?).isSome ∧ ¬ (db'[Key.tx t]?).isSome ∧
    (db[Key.inHint t' p i]?).isSome ∧ (db'[Key.tx t']?).isSome

variable {body : Hash → Tx} {db db' : Db}

theorem exact_empty : Exact body ∅ where
  named := by
    intro t hget
    simp at hget
  records := by
    intro k _
    cases howner : owner k <;> simp
  spenders := by
    intro p i value hget
    simp at hget

theorem marked_empty : Marked ∅ := by
  intro t p i hget
  simp at hget

namespace Exact

theorem inHint_iff (hexact : Exact body db) {t p : Hash} {i : Nat} :
    (db[Key.inHint t p i]?).isSome ↔
      (db[Key.tx t]?).isSome ∧ (⟨p, i⟩ : OutPoint) ∈ spends (body t) := by
  rw [hexact.records _ (fun _ _ h => by cases h), owner, Option.bind_some]
  by_cases hstored : (db[Key.tx t]?).isSome
  · rw [if_pos hstored, recordOf]
    by_cases hspends : (⟨p, i⟩ : OutPoint) ∈ spends (body t)
    · rw [if_pos hspends]
      exact iff_of_true rfl ⟨hstored, hspends⟩
    · rw [if_neg hspends]
      exact iff_of_false Bool.false_ne_true fun h => hspends h.2
  · rw [if_neg hstored]
    exact iff_of_false Bool.false_ne_true fun h => hstored h.1

/-! ### Deleting -/

/-- A record goes with the transaction it belongs to. -/
theorem getElem?_evicted (hexact : Exact body db) {txids : List Hash}
    (hevicted : Evicted db db' txids) {k : Key} {t : Hash} (howner : owner k = some t) :
    db'[k]? = if t ∈ txids then none else db[k]? := by
  have hk : ∀ p i, k ≠ .input p i := by
    rintro p i rfl
    cases howner
  split_ifs with hmem
  · cases hget : db[k]? with
    | none =>
        by_cases hevicts : Evicts db txids k
        · exact hevicted.gone k hevicts
        · rw [hevicted.kept k hevicts, hget]
    | some value =>
        apply hevicted.gone
        refine ⟨t, hmem, ?_⟩
        cases k with
        | tx t' =>
            obtain rfl : t' = t := Option.some.inj howner
            exact Or.inl rfl
        | inHint t' p i =>
            obtain rfl : t' = t := Option.some.inj howner
            exact Or.inr (Or.inr (Or.inl ⟨p, i, by rw [hget]; rfl, Or.inr rfl⟩))
        | outHint t' i =>
            obtain rfl : t' = t := Option.some.inj howner
            have hrecord := hexact.records _ hk
            rw [hget, owner, Option.bind_some] at hrecord
            split_ifs at hrecord
            rw [recordOf, eq_comm, Option.map_eq_some_iff] at hrecord
            obtain ⟨output, -, rfl⟩ := hrecord
            exact Or.inr (Or.inr (Or.inr ⟨_, i, hget, Or.inr rfl⟩))
        | output s t' i =>
            obtain rfl : t' = t := Option.some.inj howner
            have hrecord := hexact.records _ hk
            rw [hget, owner, Option.bind_some] at hrecord
            split_ifs at hrecord with hstored
            rw [recordOf, eq_comm, Option.bind_eq_some_iff] at hrecord
            obtain ⟨output, houtput, hscript⟩ := hrecord
            split_ifs at hscript with hsame
            refine Or.inr (Or.inr (Or.inr ⟨s, i, ?_, Or.inl rfl⟩))
            rw [hexact.records _ (fun _ _ h => by cases h), owner, Option.bind_some,
              if_pos hstored, recordOf, houtput, Option.map_some, hsame]
        | _ => cases howner
  · apply hevicted.kept
    rintro ⟨t', ht', rfl | rfl | ⟨p, i, -, rfl | rfl⟩ | ⟨s, i, -, rfl | rfl⟩⟩
    · exact hmem (Option.some.inj howner ▸ ht')
    · cases howner
    · cases howner
    · exact hmem (Option.some.inj howner ▸ ht')
    · exact hmem (Option.some.inj howner ▸ ht')
    · exact hmem (Option.some.inj howner ▸ ht')

theorem stored_evicted (hexact : Exact body db) {txids : List Hash}
    (hevicted : Evicted db db' txids) (t : Hash) :
    (db'[Key.tx t]?).isSome ↔ (db[Key.tx t]?).isSome ∧ t ∉ txids := by
  rw [hexact.getElem?_evicted hevicted (show owner (.tx t) = some t from rfl)]
  split_ifs with hmem <;> simp [hmem]

theorem evicts_input_iff {txids : List Hash} {p : Hash} {i : Nat} :
    Evicts db txids (.input p i) ↔ ∃ t ∈ txids, (db[Key.inHint t p i]?).isSome := by
  constructor
  · rintro ⟨t, ht, h | h | ⟨p', i', hget, h | h⟩ | ⟨s, i', -, h | h⟩⟩
    · cases h
    · cases h
    · cases h
      exact ⟨t, ht, hget⟩
    · cases h
    · cases h
    · cases h
  · rintro ⟨t, ht, hget⟩
    exact ⟨t, ht, Or.inr (Or.inr (Or.inl ⟨p, i, hget, Or.inl rfl⟩))⟩

theorem evicted (hexact : Exact body db) {txids : List Hash} (hevicted : Evicted db db' txids) :
    Exact body db' where
  named := fun t hstored => hexact.named t ((hexact.stored_evicted hevicted t).mp hstored).1
  records := by
    intro k hk
    cases howner : owner k with
    | none =>
        have hnone : db[k]? = none := by rw [hexact.records k hk, howner, Option.bind_none]
        by_cases hevicts : Evicts db txids k
        · rw [hevicted.gone k hevicts, Option.bind_none]
        · rw [hevicted.kept k hevicts, hnone, Option.bind_none]
    | some t =>
        have hstored := hexact.stored_evicted hevicted t
        rw [hexact.getElem?_evicted hevicted howner, hexact.records k hk, howner, Option.bind_some,
          Option.bind_some]
        by_cases hmem : t ∈ txids
        · rw [if_pos hmem, if_neg fun h => (hstored.mp h).2 hmem]
        · rw [if_neg hmem]
          by_cases hold : (db[Key.tx t]?).isSome
          · rw [if_pos hold, if_pos (hstored.mpr ⟨hold, hmem⟩)]
          · rw [if_neg hold, if_neg fun h => hold (hstored.mp h).1]
  spenders := by
    intro p i value hget
    have hkept : ¬ Evicts db txids (.input p i) := by
      intro hevicts
      rw [hevicted.gone _ hevicts] at hget
      cases hget
    rw [hevicted.kept _ hkept] at hget
    obtain ⟨t, rfl, hstored, hspends⟩ := hexact.spenders p i value hget
    refine ⟨t, rfl, (hexact.stored_evicted hevicted t).mpr ⟨hstored, fun hmem => hkept ?_⟩, hspends⟩
    exact evicts_input_iff.mpr ⟨t, hmem, hexact.inHint_iff.mpr ⟨hstored, hspends⟩⟩

/-! ### Adding -/

theorem stored_loaded {txids : List Hash} (hloaded : Loaded body db db' txids) (t : Hash) :
    (db'[Key.tx t]?).isSome ↔ t ∈ txids ∨ (db[Key.tx t]?).isSome := by
  rw [hloaded.records _ (fun _ _ h => by cases h), owner, Option.bind_some]
  by_cases ht : t ∈ txids
  · rw [if_pos ht]
    exact iff_of_true rfl (Or.inl ht)
  · rw [if_neg ht, Option.none_or]
    exact ⟨Or.inr, fun h => h.resolve_left ht⟩

theorem loaded (hexact : Exact body db) {txids : List Hash} (hloaded : Loaded body db db' txids) :
    Exact body db' where
  named := by
    intro t hstored
    rcases (stored_loaded hloaded t).mp hstored with ht | hold
    · exact hloaded.named t ht
    · exact hexact.named t hold
  records := by
    intro k hk
    rw [hloaded.records k hk, hexact.records k hk]
    cases howner : owner k with
    | none => rfl
    | some t =>
        have hstored := stored_loaded hloaded t
        rw [Option.bind_some, Option.bind_some, Option.bind_some]
        by_cases ht : t ∈ txids
        · rw [if_pos ht, if_pos (hstored.mpr (Or.inl ht))]
          split_ifs
          · exact Option.or_self
          · exact Option.or_none
        · rw [if_neg ht, Option.none_or]
          by_cases hold : (db[Key.tx t]?).isSome
          · rw [if_pos hold, if_pos (hstored.mpr (Or.inr hold))]
          · rw [if_neg hold, if_neg fun h => hold ((hstored.mp h).resolve_left ht)]
  spenders := by
    intro p i value hget
    by_cases hspent : ∃ t ∈ txids, (⟨p, i⟩ : OutPoint) ∈ spends (body t)
    · obtain ⟨t, ht, hspends, hnew⟩ := hloaded.spent p i hspent
      refine ⟨t, ?_, (stored_loaded hloaded t).mpr (Or.inl ht), hspends⟩
      exact Option.some.inj (hget.symm.trans hnew)
    · have hunspent := hloaded.unspent p i fun t ht hspends => hspent ⟨t, ht, hspends⟩
      rw [hunspent] at hget
      obtain ⟨t, rfl, hstored, hspends⟩ := hexact.spenders p i value hget
      exact ⟨t, rfl, (stored_loaded hloaded t).mpr (Or.inr hstored), hspends⟩

end Exact

/-! ### The spent outpoints -/

theorem Marked.loaded (hexact : Exact body db) {txids : List Hash}
    (hloaded : Loaded body db db' txids) (hmarked : Marked db) : Marked db' := by
  intro t p i hhint
  by_cases hspent : ∃ t ∈ txids, (⟨p, i⟩ : OutPoint) ∈ spends (body t)
  · obtain ⟨t', -, -, hget⟩ := hloaded.spent p i hspent
    rw [hget]
    rfl
  · rw [hloaded.unspent p i fun t' ht' hspends => hspent ⟨t', ht', hspends⟩]
    obtain ⟨hstored, hspends⟩ := (hexact.loaded hloaded).inHint_iff.mp hhint
    have hold : (db[Key.tx t]?).isSome := by
      rcases (Exact.stored_loaded hloaded t).mp hstored with ht | hold
      · exact absurd ⟨t, ht, hspends⟩ hspent
      · exact hold
    exact hmarked t p i (hexact.inHint_iff.mpr ⟨hold, hspends⟩)

theorem not_clashes_loaded (hexact : Exact body db) {txids : List Hash}
    (hloaded : Loaded body db db' txids) : ¬ Clashes db db' := by
  rintro ⟨p, i, t, -, hhint, hgone, -⟩
  exact hgone ((Exact.stored_loaded hloaded t).mpr (Or.inr (hexact.inHint_iff.mp hhint).1))

/-- **What a deletion loses**: the outpoints of a transaction that goes, whoever else spends
them. -/
theorem marked_evicted_iff (hexact : Exact body db) {txids : List Hash}
    (hevicted : Evicted db db' txids) (hmarked : Marked db) :
    Marked db' ↔ ¬ Clashes db db' := by
  constructor
  · rintro hafter ⟨p, i, t, t', hhint, hgone, hhint', hkept⟩
    have hspends' := (hexact.inHint_iff.mp hhint').2
    have hinput := hafter t' p i ((hexact.evicted hevicted).inHint_iff.mpr ⟨hkept, hspends'⟩)
    have ht : t ∈ txids := by
      by_contra hnot
      exact hgone ((hexact.stored_evicted hevicted t).mpr ⟨(hexact.inHint_iff.mp hhint).1, hnot⟩)
    rw [hevicted.gone _ (Exact.evicts_input_iff.mpr ⟨t, ht, hhint⟩)] at hinput
    cases hinput
  · intro hclear t' p i hhint'
    obtain ⟨hkept, hspends'⟩ := (hexact.evicted hevicted).inHint_iff.mp hhint'
    have hold := (hexact.stored_evicted hevicted t').mp hkept
    have hbefore := hexact.inHint_iff.mpr ⟨hold.1, hspends'⟩
    rw [hevicted.kept (.input p i) fun hevicts => ?_]
    · exact hmarked t' p i hbefore
    · obtain ⟨t, ht, hhint⟩ := Exact.evicts_input_iff.mp hevicts
      refine hclear ⟨p, i, t, t', hhint, fun hstored => ?_, hbefore, hkept⟩
      exact ((hexact.stored_evicted hevicted t).mp hstored).2 ht

theorem not_clashes_of_eq (hexact : Exact body db) (hsame : db' = db) : ¬ Clashes db db' := by
  rintro ⟨p, i, t, -, hhint, hgone, -⟩
  exact hgone (hsame ▸ (hexact.inHint_iff.mp hhint).1)

/-! ### One commit -/

section Passes

variable {bs : List TxidText → TxidText → (TxidText → TxidText → Int) → Int}
  {localeCompare : TxidText → TxidText → Int}

/-- **What a commit can do**: delete transactions, add some, or leave the records. -/
theorem Step.effect (hcompare : BinarySearch.Consistent localeCompare LowerHex)
    (hbs : BinarySearch.Contract bs localeCompare LowerHex) {m m' : MempoolStore}
    (hstep : Step bs localeCompare body m m') :
    (∃ txids, Evicted m.store.db m'.store.db txids) ∨
      (∃ txids, Loaded body m.store.db m'.store.db txids) ∨ m'.store.db = m.store.db := by
  cases hstep with
  | pruned listing mayDelete hprune =>
      obtain ⟨⟨txids, -, hevicted⟩, -⟩ := evicted_prune hcompare hbs hprune
      exact Or.inl ⟨txids, hevicted⟩
  | batch fetched hbody hstage =>
      obtain ⟨txids, -, hloaded⟩ := loaded_batch hstage hbody
      exact Or.inr (Or.inl ⟨txids, hloaded⟩)
  | finished => exact Or.inr (Or.inr rfl)
  | cleaned cleanupTxids hclean => exact Or.inl ⟨cleanupTxids, evicted_cleanup hclean⟩
  | failed hdb => exact Or.inr (Or.inr hdb)

theorem Step.exact (hcompare : BinarySearch.Consistent localeCompare LowerHex)
    (hbs : BinarySearch.Contract bs localeCompare LowerHex) {m m' : MempoolStore}
    (hstep : Step bs localeCompare body m m') (hexact : Exact body m.store.db) :
    Exact body m'.store.db := by
  rcases hstep.effect hcompare hbs with ⟨txids, hevicted⟩ | ⟨txids, hloaded⟩ | hsame
  · exact hexact.evicted hevicted
  · exact hexact.loaded hloaded
  · exact hsame ▸ hexact

theorem Step.marked_iff (hcompare : BinarySearch.Consistent localeCompare LowerHex)
    (hbs : BinarySearch.Contract bs localeCompare LowerHex) {m m' : MempoolStore}
    (hstep : Step bs localeCompare body m m') (hexact : Exact body m.store.db)
    (hmarked : Marked m.store.db) :
    Marked m'.store.db ↔ ¬ Clashes m.store.db m'.store.db := by
  rcases hstep.effect hcompare hbs with ⟨txids, hevicted⟩ | ⟨txids, hloaded⟩ | hsame
  · exact marked_evicted_iff hexact hevicted hmarked
  · exact iff_of_true (hmarked.loaded hexact hloaded) (not_clashes_loaded hexact hloaded)
  · exact iff_of_true (hsame ▸ hmarked) (not_clashes_of_eq hexact hsame)

theorem Exact.reachable (hcompare : BinarySearch.Consistent localeCompare LowerHex)
    (hbs : BinarySearch.Contract bs localeCompare LowerHex) {m : MempoolStore}
    (hreach : Reachable (· = initial) (Step bs localeCompare body) m) : Exact body m.store.db := by
  induction hreach with
  | start hinit =>
      obtain rfl : _ = initial := hinit
      exact exact_empty
  | next _ hstep ih => exact hstep.exact hcompare hbs ih

/-! ### A completed pass -/

/-- No two transactions of a listing spend one outpoint. -/
def ConflictFree (body : Hash → Tx) (listing : List Hash) : Prop :=
  ∀ t ∈ listing, ∀ t' ∈ listing, ∀ outPoint ∈ spends (body t), outPoint ∈ spends (body t') → t = t'

/-- The records but for the `I` records follow from the transactions stored. -/
theorem Exact.getElem?_eq (hexact : Exact body db) (hexact' : Exact body db')
    (hstored : ∀ t, (db[Key.tx t]?).isSome ↔ (db'[Key.tx t]?).isSome) {k : Key}
    (hk : ∀ p i, k ≠ .input p i) : db[k]? = db'[k]? := by
  rw [hexact.records k hk, hexact'.records k hk]
  congr 1
  ext t
  rw [if_congr (hstored t) rfl rfl]

/-- So do the `I` records, when each outpoint has one spender and none has lost its record. -/
theorem Exact.ext_iff_marked (hexact : Exact body db) (hexact' : Exact body db')
    (hstored : ∀ t, (db[Key.tx t]?).isSome ↔ (db'[Key.tx t]?).isSome) (hmarked' : Marked db')
    (hclear : ∀ t t' outPoint, (db[Key.tx t]?).isSome → (db[Key.tx t']?).isSome →
      outPoint ∈ spends (body t) → outPoint ∈ spends (body t') → t = t') :
    (∀ k : Key, db[k]? = db'[k]?) ↔ Marked db := by
  constructor
  · intro hsame t p i hhint
    rw [hsame] at hhint ⊢
    exact hmarked' t p i hhint
  · intro hmarked k
    by_cases hk : ∃ p i, k = .input p i
    · obtain ⟨p, i, rfl⟩ := hk
      cases hget : db[Key.input p i]? with
      | none =>
          cases hget' : db'[Key.input p i]? with
          | none => rfl
          | some value =>
              obtain ⟨t, -, hkept, hspends⟩ := hexact'.spenders p i value hget'
              have hlost := hmarked t p i (hexact.inHint_iff.mpr ⟨(hstored t).mpr hkept, hspends⟩)
              rw [hget] at hlost
              cases hlost
      | some value =>
          obtain ⟨t, rfl, hkept, hspends⟩ := hexact.spenders p i value hget
          have hsome := hmarked' t p i (hexact'.inHint_iff.mpr ⟨(hstored t).mp hkept, hspends⟩)
          obtain ⟨value', hget'⟩ := Option.isSome_iff_exists.mp hsome
          obtain ⟨t', rfl, hkept', hspends'⟩ := hexact'.spenders p i value' hget'
          rw [hget', hclear t t' _ hkept ((hstored t').mpr hkept') hspends hspends']
    · exact hexact.getElem?_eq hexact' hstored fun p i hinput => hk ⟨p, i, hinput⟩

theorem CompletesPass.exact (hcompare : BinarySearch.Consistent localeCompare LowerHex)
    (hbs : BinarySearch.Contract bs localeCompare LowerHex) {σ σ' : LevelUpStore}
    {listing : List Hash} {mayDelete : Bool}
    (hpass : CompletesPass bs localeCompare body σ listing mayDelete σ')
    (hexact : Exact body σ.db) : Exact body σ'.db := by
  obtain ⟨db, txids, fresh, hevicted, hloaded, -, -⟩ := hpass.evicted_loaded hcompare hbs
  exact (hexact.evicted hevicted).loaded hloaded

/-- What a completed pass stores. -/
theorem CompletesPass.stored_iff (hcompare : BinarySearch.Consistent localeCompare LowerHex)
    (hbs : BinarySearch.Contract bs localeCompare LowerHex) {σ σ' : LevelUpStore}
    {listing : List Hash} {mayDelete : Bool}
    (hpass : CompletesPass bs localeCompare body σ listing mayDelete σ')
    (hexact : Exact body σ.db) (t : Hash) :
    (σ'.db[Key.tx t]?).isSome ↔ t ∈ listing ∧ Transparent (body t) ∨
      mayDelete = false ∧ (σ.db[Key.tx t]?).isSome := by
  obtain ⟨db, txids, fresh, hevicted, hloaded, htxids, hfresh⟩ := hpass.evicted_loaded hcompare hbs
  rw [Exact.stored_loaded hloaded, hexact.stored_evicted hevicted, htxids, hfresh]
  by_cases hold : (σ.db[Key.tx t]?).isSome
  · have htransparent := (hexact.named t hold).1
    cases mayDelete with
    | false => simp only [Bool.false_eq_true, hold]; tauto
    | true => simp only [Bool.true_eq_false, hold]; tauto
  · cases mayDelete with
    | false => simp only [hold]; tauto
    | true => simp only [hold]; tauto

theorem CompletesPass.marked_empty (hcompare : BinarySearch.Consistent localeCompare LowerHex)
    (hbs : BinarySearch.Contract bs localeCompare LowerHex) {σ₀ : LevelUpStore}
    {listing : List Hash} {mayDelete : Bool}
    (hpass : CompletesPass bs localeCompare body (createDatabase ∅) listing mayDelete σ₀) :
    Marked σ₀.db := by
  obtain ⟨db, txids, fresh, hevicted, hloaded, -, -⟩ := hpass.evicted_loaded hcompare hbs
  refine Marked.loaded (exact_empty.evicted hevicted) hloaded ?_
  rw [marked_evicted_iff (exact_empty : Exact body ∅) hevicted Mempool.marked_empty]
  rintro ⟨p, i, t, -, hhint, -⟩
  simp at hhint

/-- **The `I` records that outlive a pass**: those of the listed spenders whose outpoint no
unlisted transaction of the store spends. -/
theorem CompletesPass.marked_iff (hcompare : BinarySearch.Consistent localeCompare LowerHex)
    (hbs : BinarySearch.Contract bs localeCompare LowerHex) {σ σ' : LevelUpStore}
    {listing : List Hash} (hclear : ConflictFree body listing)
    (hpass : CompletesPass bs localeCompare body σ listing true σ') (hexact : Exact body σ.db) :
    Marked σ'.db ↔ ∀ t p i, (σ.db[Key.inHint t p i]?).isSome → t ∈ listing →
      (σ.db[Key.input p i]?).isSome ∧
        ∀ t', (σ.db[Key.inHint t' p i]?).isSome → t' ∈ listing := by
  have hexact' := hpass.exact hcompare hbs hexact
  have hstored := hpass.stored_iff hcompare hbs hexact
  obtain ⟨db, txids, fresh, hevicted, hloaded, htxids, hfresh⟩ := hpass.evicted_loaded hcompare hbs
  constructor
  · intro hmarked t p i hhint ht
    obtain ⟨hold, hspends⟩ := hexact.inHint_iff.mp hhint
    have hkept := (hstored t).mpr (Or.inl ⟨ht, (hexact.named t hold).1⟩)
    have hinput := hmarked t p i (hexact'.inHint_iff.mpr ⟨hkept, hspends⟩)
    -- a new spender would be listed beside `t`
    rw [hloaded.unspent p i fun t' ht' hspends' => ?_] at hinput
    · have hremains : ¬ Evicts σ.db txids (.input p i) := by
        intro hevicts
        rw [hevicted.gone _ hevicts] at hinput
        cases hinput
      rw [hevicted.kept _ hremains] at hinput
      refine ⟨hinput, fun t' hhint' => ?_⟩
      by_contra hunlisted
      have hgone := (htxids t').mpr ⟨rfl, (hexact.inHint_iff.mp hhint').1, hunlisted⟩
      exact hremains (Exact.evicts_input_iff.mpr ⟨t', hgone, hhint'⟩)
    · obtain ⟨hlisted, hnew, -⟩ := (hfresh t').mp ht'
      exact hnew (hclear t ht t' hlisted _ hspends hspends' ▸ hold)
  · intro hkeeps t p i hhint
    obtain ⟨hkept, hspends⟩ := hexact'.inHint_iff.mp hhint
    by_cases hspent : ∃ t' ∈ fresh, (⟨p, i⟩ : OutPoint) ∈ spends (body t')
    · obtain ⟨t', -, -, hget⟩ := hloaded.spent p i hspent
      rw [hget]
      rfl
    · rw [hloaded.unspent p i fun t' ht' hspends' => hspent ⟨t', ht', hspends'⟩]
      rcases (hstored t).mp hkept with ⟨ht, htransparent⟩ | ⟨hkeepOnly, -⟩
      · have hold : (σ.db[Key.tx t]?).isSome := by
          by_contra hnew
          exact hspent ⟨t, (hfresh t).mpr ⟨ht, hnew, htransparent⟩, hspends⟩
        obtain ⟨hinput, hlisted⟩ := hkeeps t p i (hexact.inHint_iff.mpr ⟨hold, hspends⟩) ht
        rw [hevicted.kept (.input p i) fun hevicts => ?_]
        · exact hinput
        · obtain ⟨t', hgone, hhint'⟩ := Exact.evicts_input_iff.mp hevicts
          exact ((htxids t').mp hgone).2.2 (hlisted t' hhint')
      · cases hkeepOnly

/-- What a completed pass that may delete stores. -/
theorem CompletesPass.listed_iff (hcompare : BinarySearch.Consistent localeCompare LowerHex)
    (hbs : BinarySearch.Contract bs localeCompare LowerHex) {σ σ' : LevelUpStore}
    {listing : List Hash} (hpass : CompletesPass bs localeCompare body σ listing true σ')
    (hexact : Exact body σ.db) (t : Hash) :
    (σ'.db[Key.tx t]?).isSome ↔ t ∈ listing ∧ Transparent (body t) := by
  rw [hpass.stored_iff hcompare hbs hexact]
  simp

/-- Its records are those of the listing alone when no `I` record is lost. -/
theorem CompletesPass.same_iff (hcompare : BinarySearch.Consistent localeCompare LowerHex)
    (hbs : BinarySearch.Contract bs localeCompare LowerHex) {σ σ' σ₀ : LevelUpStore}
    {listing : List Hash} (hclear : ConflictFree body listing)
    (hpass : CompletesPass bs localeCompare body σ listing true σ') (hexact : Exact body σ.db)
    (hempty : CompletesPass bs localeCompare body (createDatabase ∅) listing true σ₀) :
    (∀ k : Key, σ'.db[k]? = σ₀.db[k]?) ↔ Marked σ'.db := by
  have hstored := hpass.listed_iff hcompare hbs hexact
  have hstored₀ := hempty.listed_iff hcompare hbs exact_empty
  refine (hpass.exact hcompare hbs hexact).ext_iff_marked (hempty.exact hcompare hbs exact_empty)
    (fun t => (hstored t).trans (hstored₀ t).symm) (hempty.marked_empty hcompare hbs) ?_
  intro t t' outPoint ht ht' hspends hspends'
  exact hclear t ((hstored t).mp ht).1 t' ((hstored t').mp ht').1 outPoint hspends hspends'

end Passes

/-! ### A replacement -/

/-- Every transaction spends the one output. -/
def rivalBody (t : Hash) : Tx := ⟨t, [⟨9, 0, true⟩], []⟩

theorem spends_rivalBody (t : Hash) : (⟨9, 0⟩ : OutPoint) ∈ spends (rivalBody t) :=
  List.mem_singleton.mpr rfl

theorem transparent_rivalBody (t : Hash) : Transparent (rivalBody t) := by
  rintro ⟨hins, -⟩
  cases hins

theorem conflictFree_singleton {body : Hash → Tx} {t : Hash} : ConflictFree body [t] := by
  intro t₁ ht₁ t₂ ht₂ _ _ _
  rw [List.mem_singleton.mp ht₁, List.mem_singleton.mp ht₂]

theorem exists_rivalPass (σ : LevelUpStore) (listing : List Hash) (mayDelete : Bool) :
    ∃ σ', CompletesPass BinarySearch.searchFrom codeCompare rivalBody σ listing mayDelete σ' := by
  apply exists_completesPass codeCompare_consistent
  · exact BinarySearch.searchFrom_contract codeCompare_consistent
  · exact fun _ _ => rfl

/-- A pass that may not delete stores transaction 2 beside transaction 1, and the next one deletes
transaction 1. -/
theorem exists_replacement :
    ∃ σ σ' σ₀,
      Relation.ReflTransGen (Step BinarySearch.searchFrom codeCompare rivalBody) initial
        ⟨σ, none⟩ ∧
      (σ.db[Key.tx 1]?).isSome ∧ (σ.db[Key.tx 2]?).isSome ∧
      CompletesPass BinarySearch.searchFrom codeCompare rivalBody σ [2] true σ' ∧
      CompletesPass BinarySearch.searchFrom codeCompare rivalBody (createDatabase ∅) [2] true
        σ₀ := by
  have hbs := BinarySearch.searchFrom_contract codeCompare_consistent
  obtain ⟨σ₁, hfirst⟩ := exists_rivalPass (createDatabase ∅) [1] true
  obtain ⟨σ₂, hsecond⟩ := exists_rivalPass σ₁ [2] false
  obtain ⟨σ₃, hthird⟩ := exists_rivalPass σ₂ [2] true
  obtain ⟨σ₀, hempty⟩ := exists_rivalPass (createDatabase ∅) [2] true
  have hexact := hfirst.exact codeCompare_consistent hbs exact_empty
  have hstored := hfirst.stored_iff codeCompare_consistent hbs exact_empty
  have hstored' := hsecond.stored_iff codeCompare_consistent hbs hexact
  refine ⟨σ₂, σ₃, σ₀, ?_, ?_, ?_, hthird, hempty⟩
  · exact hfirst.steps.trans hsecond.steps
  · have hone := (hstored 1).mpr (Or.inl ⟨List.mem_singleton_self 1, transparent_rivalBody 1⟩)
    exact (hstored' 1).mpr (Or.inr ⟨rfl, hone⟩)
  · exact (hstored' 2).mpr (Or.inl ⟨List.mem_singleton_self 2, transparent_rivalBody 2⟩)

/-! ### Runs -/

section Runs

variable {bs : List TxidText → TxidText → (TxidText → TxidText → Int) → Int}
  {localeCompare : TxidText → TxidText → Int}

/-- **The mempool store over a run.** In every state the records are those of the transactions
stored; and every outpoint they spend has its `I` record in every state exactly when no commit
deletes a transaction and keeps one that spends the same outpoint. -/
theorem mempool_store_marked_iff (hcompare : BinarySearch.Consistent localeCompare LowerHex)
    (hbs : BinarySearch.Contract bs localeCompare LowerHex) {run : List MempoolStore}
    (hrun : (initial :: run).IsChain (Step bs localeCompare body)) :
    (∀ m ∈ initial :: run, Exact body m.store.db) ∧
      ((∀ m ∈ initial :: run, Marked m.store.db) ↔
        (initial :: run).IsChain fun m m' => ¬ Clashes m.store.db m'.store.db) := by
  constructor
  · refine forall_of_isChain (fun m m' (hexact : Exact body m.store.db) hstep => ?_)
      exact_empty hrun
    exact hstep.exact hcompare hbs hexact
  · refine forall_good_iff_unbroken
      (fun m (hinv : Exact body m.store.db ∧ Marked m.store.db) => hinv.2) ?_ ?_
      ⟨exact_empty, marked_empty⟩ hrun
    · intro m m' hinv hstep hclear
      refine ⟨hstep.exact hcompare hbs hinv.1, ?_⟩
      exact (hstep.marked_iff hcompare hbs hinv.1 hinv.2).mpr hclear
    · intro m m' hinv hstep hclashes hmarked
      exact (hstep.marked_iff hcompare hbs hinv.1 hinv.2).mp hmarked hclashes

end Runs

/-- A replacement. -/
theorem mempool_store_marked_iff_replacement :
    ∃ run, (initial :: run).IsChain (Step BinarySearch.searchFrom codeCompare rivalBody) ∧
      ¬ (initial :: run).IsChain fun m m' => ¬ Clashes m.store.db m'.store.db := by
  have hbs := BinarySearch.searchFrom_contract codeCompare_consistent
  obtain ⟨σ, σ', σ₀, hrun, hone, htwo, hpass, -⟩ := exists_replacement
  obtain ⟨run, hchain, hlast⟩ :=
    List.exists_isChain_cons_of_relationReflTransGen (hrun.trans hpass.steps)
  refine ⟨run, hchain, fun hclear => ?_⟩
  have hmarked := (mempool_store_marked_iff codeCompare_consistent hbs hchain).2.mpr hclear
    ⟨σ', none⟩ (hlast ▸ List.getLast_mem _)
  have hreach : Reachable (· = initial) (Step BinarySearch.searchFrom codeCompare rivalBody)
      ⟨σ, none⟩ := Reachable.trans (.start rfl) hrun
  have hexact := Exact.reachable codeCompare_consistent hbs hreach
  have hkeeps := (hpass.marked_iff codeCompare_consistent hbs conflictFree_singleton hexact).mp
    hmarked 2 9 0 (hexact.inHint_iff.mpr ⟨htwo, spends_rivalBody 2⟩) (List.mem_singleton_self 2)
  have hlisted := hkeeps.2 1 (hexact.inHint_iff.mpr ⟨hone, spends_rivalBody 1⟩)
  exact absurd hlisted (by decide)

section Runs

variable {bs : List TxidText → TxidText → (TxidText → TxidText → Int) → Int}
  {localeCompare : TxidText → TxidText → Int}

/-- **A completed pass and its history.** Whatever passes and flushes came before, a completed pass
that may delete leaves the `T`, `O`, `H` and `J` records that the same listing leaves in an empty
store; and the `I` records too exactly when every listed transaction stored before had its `I`
records, on outpoints that no unlisted transaction of the store spent. -/
theorem mempool_pass_converges (hcompare : BinarySearch.Consistent localeCompare LowerHex)
    (hbs : BinarySearch.Contract bs localeCompare LowerHex) {σ σ' σ₀ : LevelUpStore}
    {listing : List Hash}
    (hreach : Reachable (· = initial) (Step bs localeCompare body) ⟨σ, none⟩)
    (hclear : ConflictFree body listing)
    (hpass : CompletesPass bs localeCompare body σ listing true σ')
    (hempty : CompletesPass bs localeCompare body (createDatabase ∅) listing true σ₀) :
    (∀ t, (σ'.db[Key.tx t]?).isSome ↔ t ∈ listing ∧ Transparent (body t)) ∧
      (∀ k : Key, (∀ p i, k ≠ .input p i) → σ'.db[k]? = σ₀.db[k]?) ∧
      ((∀ k : Key, σ'.db[k]? = σ₀.db[k]?) ↔
        ∀ t p i, (σ.db[Key.inHint t p i]?).isSome → t ∈ listing →
          (σ.db[Key.input p i]?).isSome ∧
            ∀ t', (σ.db[Key.inHint t' p i]?).isSome → t' ∈ listing) := by
  have hexact : Exact body σ.db := Exact.reachable hcompare hbs hreach
  have hexact' := hpass.exact hcompare hbs hexact
  have hexact₀ := hempty.exact hcompare hbs exact_empty
  have hstored := hpass.listed_iff hcompare hbs hexact
  have hstored₀ := hempty.listed_iff hcompare hbs exact_empty
  refine ⟨hstored, fun k hk => hexact'.getElem?_eq hexact₀ (fun t => ?_) hk, ?_⟩
  · exact (hstored t).trans (hstored₀ t).symm
  · rw [← hpass.marked_iff hcompare hbs hclear hexact]
    exact hpass.same_iff hcompare hbs hclear hexact hempty

end Runs

/-- A replacement loses the record of the output spent. -/
theorem mempool_pass_converges_replacement :
    ∃ σ σ' σ₀ : LevelUpStore,
      Reachable (· = initial) (Step BinarySearch.searchFrom codeCompare rivalBody) ⟨σ, none⟩ ∧
        CompletesPass BinarySearch.searchFrom codeCompare rivalBody σ [2] true σ' ∧
        CompletesPass BinarySearch.searchFrom codeCompare rivalBody (createDatabase ∅) [2] true
          σ₀ ∧
        ¬ ∀ k : Key, σ'.db[k]? = σ₀.db[k]? := by
  have hbs := BinarySearch.searchFrom_contract codeCompare_consistent
  obtain ⟨σ, σ', σ₀, hrun, hone, htwo, hpass, hempty⟩ := exists_replacement
  have hreach : Reachable (· = initial) (Step BinarySearch.searchFrom codeCompare rivalBody)
      ⟨σ, none⟩ := Reachable.trans (.start rfl) hrun
  have hexact := Exact.reachable codeCompare_consistent hbs hreach
  refine ⟨σ, σ', σ₀, hreach, hpass, hempty, fun hsame => ?_⟩
  have hkeeps := (mempool_pass_converges codeCompare_consistent hbs hreach conflictFree_singleton
    hpass hempty).2.2.mp hsame 2 9 0 (hexact.inHint_iff.mpr ⟨htwo, spends_rivalBody 2⟩)
    (List.mem_singleton_self 2)
  have hlisted := hkeeps.2 1 (hexact.inHint_iff.mpr ⟨hone, spends_rivalBody 1⟩)
  exact absurd hlisted (by decide)

section Runs

variable {bs : List TxidText → TxidText → (TxidText → TxidText → Int) → Int}
  {localeCompare : TxidText → TxidText → Int}

/-- **When a completed pass forgets its history**: its records are those that the same listing leaves
in an empty store, the `I` record of every spent outpoint among them, exactly when the listed
transactions stored before had theirs, on outpoints that no unlisted transaction of the store
spent. -/
theorem mempool_pass_forgets_iff (hcompare : BinarySearch.Consistent localeCompare LowerHex)
    (hbs : BinarySearch.Contract bs localeCompare LowerHex) {σ σ' σ₀ : LevelUpStore}
    {listing : List Hash}
    (hreach : Reachable (· = initial) (Step bs localeCompare body) ⟨σ, none⟩)
    (hclear : ConflictFree body listing)
    (hpass : CompletesPass bs localeCompare body σ listing true σ')
    (hempty : CompletesPass bs localeCompare body (createDatabase ∅) listing true σ₀) :
    (∀ k : Key, σ'.db[k]? = σ₀.db[k]?) ∧
        (∀ t p i, (σ'.db[Key.tx t]?).isSome → (⟨p, i⟩ : OutPoint) ∈ spends (body t) →
          (σ'.db[Key.input p i]?).isSome) ↔
      ∀ t p i, (σ.db[Key.inHint t p i]?).isSome → t ∈ listing →
        (σ.db[Key.input p i]?).isSome ∧
          ∀ t', (σ.db[Key.inHint t' p i]?).isSome → t' ∈ listing := by
  have hexact : Exact body σ.db := Exact.reachable hcompare hbs hreach
  have hexact' := hpass.exact hcompare hbs hexact
  have hmarked : (∀ t p i, (σ'.db[Key.tx t]?).isSome → (⟨p, i⟩ : OutPoint) ∈ spends (body t) →
      (σ'.db[Key.input p i]?).isSome) ↔ Marked σ'.db := by
    refine forall_congr' fun t => forall_congr' fun p => forall_congr' fun i => ?_
    rw [hexact'.inHint_iff, and_imp]
  rw [hmarked, hpass.same_iff hcompare hbs hclear hexact hempty, and_self]
  exact hpass.marked_iff hcompare hbs hclear hexact

end Runs

/-- A second pass over the same listing. -/
theorem mempool_pass_forgets_iff_again :
    ∃ σ σ' σ₀ : LevelUpStore,
      Reachable (· = initial) (Step BinarySearch.searchFrom codeCompare rivalBody) ⟨σ, none⟩ ∧
        (σ.db[Key.tx 1]?).isSome ∧
        CompletesPass BinarySearch.searchFrom codeCompare rivalBody σ [1] true σ' ∧
        CompletesPass BinarySearch.searchFrom codeCompare rivalBody (createDatabase ∅) [1] true
          σ₀ ∧
        (∀ k : Key, σ'.db[k]? = σ₀.db[k]?) ∧ (σ'.db[Key.input 9 0]?).isSome := by
  have hbs := BinarySearch.searchFrom_contract codeCompare_consistent
  obtain ⟨σ, hfirst⟩ := exists_rivalPass (createDatabase ∅) [1] true
  obtain ⟨σ', hsecond⟩ := exists_rivalPass σ [1] true
  have hexact := hfirst.exact codeCompare_consistent hbs exact_empty
  have hstored := hfirst.listed_iff codeCompare_consistent hbs exact_empty
  have hone : (σ.db[Key.tx 1]?).isSome :=
    (hstored 1).mpr ⟨List.mem_singleton_self 1, transparent_rivalBody 1⟩
  have hreach : Reachable (· = initial) (Step BinarySearch.searchFrom codeCompare rivalBody)
      ⟨σ, none⟩ := Reachable.trans (.start rfl) hfirst.steps
  have hkept := (hsecond.listed_iff codeCompare_consistent hbs hexact 1).mpr
    ⟨List.mem_singleton_self 1, transparent_rivalBody 1⟩
  obtain ⟨hsame, hinputs⟩ := (mempool_pass_forgets_iff codeCompare_consistent hbs hreach
    conflictFree_singleton hsecond hfirst).mpr fun t p i hhint _ =>
      ⟨hfirst.marked_empty codeCompare_consistent hbs t p i hhint, fun t' hhint' =>
        ((hstored t').mp (hexact.inHint_iff.mp hhint').1).1⟩
  exact ⟨σ, σ', σ, hreach, hone, hsecond, hfirst, hsame,
    hinputs 1 9 0 hkept (spends_rivalBody 1)⟩

/-- **A replacement forgotten**: a pass that may not delete stored transaction 2 beside the one it
replaces, and the next pass takes its `I` record away with that one. -/
theorem replacement_loses_input :
    ∃ σ σ' σ₀ : LevelUpStore,
      Reachable (· = initial) (Step BinarySearch.searchFrom codeCompare rivalBody) ⟨σ, none⟩ ∧
        ConflictFree rivalBody [2] ∧
        CompletesPass BinarySearch.searchFrom codeCompare rivalBody σ [2] true σ' ∧
        CompletesPass BinarySearch.searchFrom codeCompare rivalBody (createDatabase ∅) [2] true
          σ₀ ∧
        (σ'.db[Key.tx 2]?).isSome ∧ (⟨9, 0⟩ : OutPoint) ∈ spends (rivalBody 2) ∧
        σ'.db[Key.input 9 0]? = none ∧ (σ₀.db[Key.input 9 0]?).isSome := by
  have hbs := BinarySearch.searchFrom_contract codeCompare_consistent
  obtain ⟨σ, σ', σ₀, hrun, hone, htwo, hpass, hempty⟩ := exists_replacement
  have hreach : Reachable (· = initial) (Step BinarySearch.searchFrom codeCompare rivalBody)
      ⟨σ, none⟩ := Reachable.trans (.start rfl) hrun
  have hexact := Exact.reachable codeCompare_consistent hbs hreach
  have hexact' := hpass.exact codeCompare_consistent hbs hexact
  have hexact₀ := hempty.exact codeCompare_consistent hbs exact_empty
  have hlisted := hpass.listed_iff codeCompare_consistent hbs hexact
  have hlisted₀ := hempty.listed_iff codeCompare_consistent hbs exact_empty
  have hboth := And.intro (List.mem_singleton_self (2 : Hash)) (transparent_rivalBody 2)
  have hkept₀ := hexact₀.inHint_iff.mpr ⟨(hlisted₀ 2).mpr hboth, spends_rivalBody 2⟩
  refine ⟨σ, σ', σ₀, hreach, conflictFree_singleton, hpass, hempty, (hlisted 2).mpr hboth,
    spends_rivalBody 2, ?_, hempty.marked_empty codeCompare_consistent hbs 2 9 0 hkept₀⟩
  by_contra hsome
  have hmarked : Marked σ'.db := by
    intro t p i hhint
    have hspends := (hexact'.inHint_iff.mp hhint).2
    obtain ⟨rfl, rfl⟩ := OutPoint.mk.inj (List.mem_singleton.mp hspends)
    exact Option.isSome_iff_ne_none.mpr hsome
  -- the record could only outlive the pass if the replaced transaction were listed
  have hkeeps := (hpass.marked_iff codeCompare_consistent hbs conflictFree_singleton hexact).mp
    hmarked 2 9 0 (hexact.inHint_iff.mpr ⟨htwo, spends_rivalBody 2⟩) (List.mem_singleton_self 2)
  have hunlisted := hkeeps.2 1 (hexact.inHint_iff.mpr ⟨hone, spends_rivalBody 1⟩)
  exact absurd hunlisted (by decide)

end UtxoTracker.Mempool

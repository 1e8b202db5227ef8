import UtxoTracker.Proof.SecondPass
/-!
# Looking spent outputs up

What the batch and the database hold for one coin. A live coin is wholly staged or wholly on disk,
so the lookups of the second pass always find its script and its value.
-/

namespace UtxoTracker

open KeyedStore LevelUpStore Provenance

@[simp] theorem hintValue_none : hintValue none = none := rfl

@[simp] theorem outputValue_none (script : Hash) : outputValue script none = none := rfl

@[simp] theorem hintValue_some (out : NewOutput) :
    hintValue (some out) = some (.hash out.scriptPubKey) := rfl

@[simp] theorem outputValue_some (script : Hash) (out : NewOutput) :
    outputValue script (some out) =
      if out.scriptPubKey = script then some (.output out.record) else none := rfl

theorem hintValue_eq_none {coin : Option NewOutput} : hintValue coin = none ↔ coin = none := by
  simp [hintValue]

/-- The staged writes `f` over the database: `live` are the coins a reader of the batch sees, and
`durable` those on disk. -/
structure CoinView (f : Key → Option (WriteOp Value)) (db : Db)
    (live durable : OutPoint → Option NewOutput) : Prop where
  hint : ∀ txid idx, overlay (f (.outHint txid idx)) db[Key.outHint txid idx]? =
    hintValue (live ⟨txid, idx⟩)
  output : ∀ script txid idx,
    overlay (f (.output script txid idx)) db[Key.output script txid idx]? =
      outputValue script (live ⟨txid, idx⟩)
  dbHint : ∀ txid idx, db[Key.outHint txid idx]? = hintValue (durable ⟨txid, idx⟩)
  dbOutput : ∀ script txid idx, db[Key.output script txid idx]? =
    outputValue script (durable ⟨txid, idx⟩)
  put_hint : ∀ txid idx value, f (.outHint txid idx) = some (.put value) →
    durable ⟨txid, idx⟩ = none
  put_output : ∀ script txid idx value, f (.output script txid idx) = some (.put value) →
    durable ⟨txid, idx⟩ = none

namespace CoinView

variable {f : Key → Option (WriteOp Value)} {db : Db} {live durable : OutPoint → Option NewOutput}

/-- **A live coin is wholly staged or wholly on disk.** -/
theorem staged_or_durable (hview : CoinView f db live durable) {txid : Hash} {idx : Nat}
    {out : NewOutput} (hlive : live ⟨txid, idx⟩ = some out) :
    (f (.outHint txid idx) = some (.put (.hash out.scriptPubKey)) ∧
        f (.output out.scriptPubKey txid idx) = some (.put (.output out.record)) ∧
        durable ⟨txid, idx⟩ = none) ∨
      (f (.outHint txid idx) = none ∧ f (.output out.scriptPubKey txid idx) = none ∧
        db[Key.outHint txid idx]? = some (.hash out.scriptPubKey) ∧
        db[Key.output out.scriptPubKey txid idx]? = some (.output out.record)) := by
  have hhint := hview.hint txid idx
  have houtput := hview.output out.scriptPubKey txid idx
  rw [hlive, hintValue_some] at hhint
  rw [hlive, outputValue_some, if_pos rfl] at houtput
  cases hH : f (.outHint txid idx) with
  | some op =>
      cases op with
      | del => simp [hH] at hhint
      | put value =>
          have hdurable := hview.put_hint txid idx value hH
          rw [hH, overlay_put, Option.some.injEq] at hhint
          rw [hview.dbOutput, hdurable, outputValue_none] at houtput
          left
          refine ⟨by rw [hhint], ?_, hdurable⟩
          cases hO : f (.output out.scriptPubKey txid idx) with
          | none => simp [hO] at houtput
          | some op =>
              cases op with
              | del => simp [hO] at houtput
              | put value' =>
                  rw [hO, overlay_put, Option.some.injEq] at houtput
                  rw [houtput]
  | none =>
      rw [hH, overlay_none] at hhint
      right
      cases hO : f (.output out.scriptPubKey txid idx) with
      | none =>
          rw [hO, overlay_none] at houtput
          exact ⟨rfl, rfl, hhint, houtput⟩
      | some op =>
          cases op with
          | del => simp [hO] at houtput
          | put value =>
              rw [hview.dbHint, hview.put_output _ txid idx value hO] at hhint
              cases hhint

end CoinView

/-! ### The two lookup phases -/

/-- The first phase on a live coin. -/
theorem hintLookup_eq {σ : LevelUpStore} {live durable : OutPoint → Option NewOutput}
    (hview : CoinView σ.staged σ.db live durable) {input : SpentInput} {out : NewOutput}
    (hlive : live input.outPoint = some out) :
    σ.hintLookup input =
      if durable input.outPoint = none then .inMem out.scriptPubKey
      else .onDisk out.scriptPubKey none := by
  rcases hview.staged_or_durable hlive with ⟨hH, -, hdurable⟩ | ⟨hH, -, hdb, -⟩
  · have hvalue : σ.getTransactionValue input.hKey = some (.hash out.scriptPubKey) := by
      rw [getTransactionValue_eq, SpentInput.hKey, hH]
    rw [if_pos (show durable input.outPoint = none from hdurable)]
    simp only [hintLookup, hvalue, Option.bind_some, decodeHash]
  · have hvalue : σ.getTransactionValue input.hKey = none := by
      rw [getTransactionValue_eq, SpentInput.hKey, hH]
    have hdurable : durable input.outPoint ≠ none := by
      intro hnone
      rw [hview.dbHint] at hdb
      rw [SpentInput.outPoint] at hnone
      rw [hnone] at hdb
      cases hdb
    have hdb' : σ.db[input.hKey]? = some (.hash out.scriptPubKey) := hdb
    rw [if_neg hdurable]
    simp only [hintLookup, hvalue, Option.bind_none, hdb', Option.bind_some, decodeHash]

/-- A coin that is neither staged, nor deleted in the batch, nor on disk. -/
theorem hintLookup_missing {σ : LevelUpStore} {live durable : OutPoint → Option NewOutput}
    (hview : CoinView σ.staged σ.db live durable) {input : SpentInput}
    (hlive : live input.outPoint = none) (hdel : σ.staged input.hKey ≠ some .del) :
    σ.hintLookup input = .missing := by
  have hhint : overlay (σ.staged input.hKey) σ.db[input.hKey]? = none :=
    (hview.hint input.prevTxHash input.prevOutputIndex).trans (by
      rw [← SpentInput.outPoint, hlive, hintValue_none])
  have hstaged : σ.staged input.hKey = none := by
    cases hop : σ.staged input.hKey with
    | none => rfl
    | some op =>
        cases op with
        | put value => simp [hop] at hhint
        | del => exact absurd hop hdel
  rw [hstaged, overlay_none] at hhint
  have hvalue : σ.getTransactionValue input.hKey = none := by
    rw [getTransactionValue_eq, hstaged]
  simp only [hintLookup, hvalue, hhint, Option.bind_none]

/-- The value lookup touches nothing but the cache, and only takes entries out of it. -/
theorem outputLookup_store (σ : LevelUpStore) (input : SpentInput) (found : Resolved) :
    ∃ cache : Std.ExtTreeMap OutPoint OutputRecord,
      (σ.outputLookup input found).1 = { σ with outputCache := cache } ∧
        ∀ (o : OutPoint) (record : OutputRecord), cache[o]? = some record → σ.outputCache[o]? = some record := by
  cases found with
  | missing => exact ⟨σ.outputCache, rfl, fun _ _ h => h⟩
  | inMem script => exact ⟨σ.outputCache, rfl, fun _ _ h => h⟩
  | onDisk script oVal =>
      simp only [outputLookup]
      cases hcached : σ.outputCache[input.outPoint]? with
      | none => exact ⟨σ.outputCache, rfl, fun _ _ h => h⟩
      | some record =>
          refine ⟨σ.outputCache.erase input.outPoint, rfl, fun o record' hget => ?_⟩
          rw [Std.ExtTreeMap.getElem?_erase] at hget
          split at hget
          · cases hget
          · exact hget

/-- The value found for an input, given the cache entries and the disk. -/
def LookupOf (σ : LevelUpStore) (input : SpentInput) (hint found : Resolved) : Prop :=
  match hint with
  | .onDisk script _ =>
      (∃ record, σ.outputCache[input.outPoint]? = some record ∧
        found = .onDisk script (some (.output record))) ∨
      found = .onDisk script σ.db[input.oKey script]?
  | other => found = other

theorem outputLookup_found (σ : LevelUpStore) (input : SpentInput) (hint : Resolved) :
    LookupOf σ input hint (σ.outputLookup input hint).2 := by
  cases hint with
  | missing => rfl
  | inMem script => rfl
  | onDisk script oVal =>
      simp only [LookupOf, outputLookup]
      cases hcached : σ.outputCache[input.outPoint]? with
      | none => exact Or.inr rfl
      | some record => exact Or.inl ⟨record, rfl, rfl⟩

/-- **Both phases together**: each input keeps its place, and its value comes from the cache or from
the disk. -/
theorem outputLookups_spec (hints : List (SpentInput × Resolved)) (σ : LevelUpStore) :
    (∃ cache : Std.ExtTreeMap OutPoint OutputRecord,
      (outputLookups hints σ).1 = { σ with outputCache := cache } ∧
        ∀ (o : OutPoint) (record : OutputRecord), cache[o]? = some record → σ.outputCache[o]? = some record) ∧
      (outputLookups hints σ).2.map Prod.fst = hints.map Prod.fst ∧
      ∀ entry ∈ (outputLookups hints σ).2,
        ∃ hint, (entry.1, hint) ∈ hints ∧ LookupOf σ entry.1 hint entry.2 := by
  induction hints generalizing σ with
  | nil =>
      refine ⟨⟨σ.outputCache, rfl, fun _ _ h => h⟩, rfl, ?_⟩
      intro entry hentry
      cases hentry
  | cons head rest ih =>
      obtain ⟨input, hint⟩ := head
      obtain ⟨cache₁, hstore₁, hsub₁⟩ := outputLookup_store σ input hint
      have hfound₁ := outputLookup_found σ input hint
      obtain ⟨⟨cache₂, hstore₂, hsub₂⟩, hfst₂, hfound₂⟩ := ih (σ.outputLookup input hint).1
      rw [hstore₁] at hsub₂ hstore₂ hfound₂
      simp only [outputLookups]
      refine ⟨⟨cache₂, ?_, fun o record hget => hsub₁ o record (hsub₂ o record hget)⟩, ?_, ?_⟩
      · rw [hstore₁, hstore₂]
      · rw [List.map_cons, List.map_cons, hfst₂]
      · intro entry hentry
        rcases List.mem_cons.mp hentry with rfl | hin
        · exact ⟨hint, List.mem_cons_self, hfound₁⟩
        · rw [hstore₁] at hin
          obtain ⟨hint', hmem, hlookup⟩ := hfound₂ entry hin
          refine ⟨hint', List.mem_cons_of_mem _ hmem, ?_⟩
          cases hint' with
          | missing => exact hlookup
          | inMem script => exact hlookup
          | onDisk script oVal =>
              rcases hlookup with ⟨record, hcached, hval⟩ | hdisk
              · exact Or.inl ⟨record, hsub₁ _ _ hcached, hval⟩
              · exact Or.inr hdisk

end UtxoTracker

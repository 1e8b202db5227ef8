import UtxoTracker.Proof.Lookup
/-!
# What a spend leaves behind

The effect of one spend, in terms of the coin it spends: the coin's records are gone, and its
recovery records are staged when an older block created it.
-/

namespace UtxoTracker

open KeyedStore LevelUpStore Provenance

/-- What the lookups find for an input. -/
def expectedFound (live durable : OutPoint → Option NewOutput) (o : OutPoint) : Resolved :=
  match live o with
  | none => .missing
  | some out =>
      if durable o = none then .inMem out.scriptPubKey
      else .onDisk out.scriptPubKey (some (.output out.record))

/-- The coin whose recovery records a spend at `height` stages. -/
def keptCoin (height : Int) (live durable : OutPoint → Option NewOutput) (o : OutPoint) :
    Option NewOutput :=
  (live o).bind fun out =>
    if durable o = none ∧ ¬ (0 ≤ out.height ∧ out.height < height) then none else some out

/-- The staged write of an optional value, over what was staged before. -/
def putOr (value : Option Value) (before : Option (WriteOp Value)) : Option (WriteOp Value) :=
  match value with
  | some value => some (.put value)
  | none => before

section Spend

variable {f : Key → Option (WriteOp Value)} {db : Db} {live durable : OutPoint → Option NewOutput}
  (hview : CoinView f db live durable) (height : Int) (input : SpentInput)

include hview

/-- A spent coin has no `H` record left. -/
theorem spend_hint :
    overlay (spendStep height input (expectedFound live durable input.outPoint) f input.hKey)
      db[input.hKey]? = none := by
  unfold expectedFound
  cases hlive : live input.outPoint with
  | none =>
      exact (hview.hint input.prevTxHash input.prevOutputIndex).trans
        (hintValue_eq_none.mpr hlive)
  | some out =>
      by_cases hdurable : durable input.outPoint = none
      · simp only [if_pos hdurable, spendStep, true_or, if_true, overlay_none]
        exact (hview.dbHint input.prevTxHash input.prevOutputIndex).trans
          (hintValue_eq_none.mpr hdurable)
      · simp only [if_neg hdurable, spendStep, true_or, if_true, overlay_del]

/-- A spent coin has no `O` record left, under its own script or another. -/
theorem spend_output (script : Hash) :
    overlay (spendStep height input (expectedFound live durable input.outPoint) f
      (input.oKey script)) db[input.oKey script]? = none := by
  have hbefore : overlay (f (input.oKey script)) db[input.oKey script]? =
      outputValue script (live input.outPoint) :=
    hview.output script input.prevTxHash input.prevOutputIndex
  unfold expectedFound
  cases hlive : live input.outPoint with
  | none => rw [hlive] at hbefore; exact hbefore
  | some out =>
      rw [hlive, outputValue_some] at hbefore
      by_cases hscript : out.scriptPubKey = script
      · subst hscript
        by_cases hdurable : durable input.outPoint = none
        · simp only [if_pos hdurable, spendStep, or_true, if_true, overlay_none]
          refine (hview.dbOutput _ input.prevTxHash input.prevOutputIndex).trans ?_
          rw [← SpentInput.outPoint, hdurable, outputValue_none]
        · simp only [if_neg hdurable, spendStep, or_true, if_true, overlay_del]
      · rw [if_neg hscript] at hbefore
        have hO : input.oKey script ≠ input.oKey out.scriptPubKey := by
          simpa [SpentInput.oKey] using Ne.symm hscript
        have hH : input.oKey script ≠ input.hKey := (hKey_ne_oKey input script).symm
        have hM : input.oKey script ≠ input.mKey := by simp [SpentInput.oKey, SpentInput.mKey]
        have hK : input.oKey script ≠ input.kKey out.scriptPubKey := by
          simp [SpentInput.oKey, SpentInput.kKey]
        by_cases hdurable : durable input.outPoint = none
        · simp only [if_pos hdurable, spendStep, hH, hO, hM, hK, or_self, if_false]
          split <;> exact hbefore
        · simp only [if_neg hdurable, spendStep, hH, hO, hM, hK, or_self, if_false]
          exact hbefore

/-- The `K` record of a spend. -/
theorem spend_outDel (script : Hash) :
    spendStep height input (expectedFound live durable input.outPoint) f (input.kKey script) =
      putOr (outputValue script (keptCoin height live durable input.outPoint))
        (f (input.kKey script)) := by
  have hH : input.kKey script ≠ input.hKey := by simp [SpentInput.kKey, SpentInput.hKey]
  have hO : ∀ s, input.kKey script ≠ input.oKey s := by simp [SpentInput.kKey, SpentInput.oKey]
  have hM : input.kKey script ≠ input.mKey := by simp [SpentInput.kKey, SpentInput.mKey]
  have hK : ∀ s, input.kKey script = input.kKey s ↔ s = script := by
    intro s
    simp [SpentInput.kKey, eq_comm]
  unfold expectedFound keptCoin
  cases hlive : live input.outPoint with
  | none => rfl
  | some out =>
      by_cases hdurable : durable input.outPoint = none
      · have hstaged : f (input.oKey out.scriptPubKey) = some (.put (.output out.record)) := by
          rcases hview.staged_or_durable hlive with ⟨-, hput, -⟩ | ⟨-, -, hdb, -⟩
          · exact hput
          · rw [hview.dbHint, ← SpentInput.outPoint, hdurable] at hdb
            cases hdb
        by_cases hcross : 0 ≤ out.height ∧ out.height < height
        · have hrecovered : recoveredValue height (some (.put (.output out.record))) =
              some (.output out.record) := if_pos hcross
          simp only [if_pos hdurable, spendStep, hH, hO, hM, hK, or_self, if_false, hstaged,
            hrecovered, Option.bind_some, hcross, and_self, not_true_eq_false, and_false]
          by_cases hscript : out.scriptPubKey = script <;> simp [hscript, putOr]
        · have hrecovered : recoveredValue height (some (.put (.output out.record))) = none :=
            if_neg hcross
          simp only [spendStep, hH, hO, or_self, if_false, hstaged, hrecovered,
            Option.bind_some, hdurable, hcross, not_false_eq_true, and_self, if_true,
            outputValue_none, putOr]
      · simp only [spendStep, hH, hO, hM, hK, or_self, if_false, Option.bind_some, hdurable,
          false_and]
        by_cases hscript : out.scriptPubKey = script <;> simp [hscript, putOr]

/-- The `M` record of a spend. -/
theorem spend_hintDel :
    spendStep height input (expectedFound live durable input.outPoint) f input.mKey =
      putOr (hintValue (keptCoin height live durable input.outPoint)) (f input.mKey) := by
  have hH : input.mKey ≠ input.hKey := by simp [SpentInput.mKey, SpentInput.hKey]
  have hO : ∀ s, input.mKey ≠ input.oKey s := by simp [SpentInput.mKey, SpentInput.oKey]
  unfold expectedFound keptCoin
  cases hlive : live input.outPoint with
  | none => rfl
  | some out =>
      by_cases hdurable : durable input.outPoint = none
      · have hstaged : f (input.oKey out.scriptPubKey) = some (.put (.output out.record)) := by
          rcases hview.staged_or_durable hlive with ⟨-, hput, -⟩ | ⟨-, -, hdb, -⟩
          · exact hput
          · rw [hview.dbHint, ← SpentInput.outPoint, hdurable] at hdb
            cases hdb
        by_cases hcross : 0 ≤ out.height ∧ out.height < height
        · have hrecovered : recoveredValue height (some (.put (.output out.record))) =
              some (.output out.record) := if_pos hcross
          simp only [if_pos hdurable, spendStep, hH, hO, or_self, if_false, if_true, hstaged,
            hrecovered, Option.bind_some, hcross, and_self, not_true_eq_false, and_false,
            hintValue_some, putOr]
        · have hrecovered : recoveredValue height (some (.put (.output out.record))) = none :=
            if_neg hcross
          simp only [spendStep, hH, hO, or_self, if_false, hstaged, hrecovered,
            Option.bind_some, hdurable, hcross, not_false_eq_true, and_self, if_true,
            hintValue_none, putOr]
      · simp only [spendStep, hH, hO, or_self, if_false, if_true, Option.bind_some, hdurable,
          false_and, hintValue_some, putOr]

end Spend

/-- A spend stages recovery records of its own block alone. -/
theorem spend_other_block {f : Key → Option (WriteOp Value)} {height : Int} {input : SpentInput}
    {found : Resolved} {k : Key} (hH : k ≠ input.hKey) (hO : ∀ s, k ≠ input.oKey s)
    (hM : k ≠ input.mKey) (hK : ∀ s, k ≠ input.kKey s) : spendStep height input found f k = f k := by
  cases found with
  | missing => rfl
  | inMem script =>
      simp only [spendStep, hH, hO, hM, hK, or_self, if_false]
      split <;> rfl
  | onDisk script oVal =>
      cases oVal with
      | none => rfl
      | some oVal => simp only [spendStep, hH, hO, hM, hK, or_self, if_false]

/-- A spend deletes nothing but the `O` and `H` records it found on disk. -/
theorem spend_del {f : Key → Option (WriteOp Value)} {height : Int} {input : SpentInput}
    {found : Resolved} {k : Key} (hdel : spendStep height input found f k = some .del) :
    f k = some .del ∨ ∃ script oVal, found = .onDisk script (some oVal) ∧
      (k = input.hKey ∨ k = input.oKey script) := by
  cases found with
  | missing => exact Or.inl hdel
  | inMem script =>
      simp only [spendStep] at hdel
      split at hdel
      · cases hdel
      · split at hdel
        · exact Or.inl hdel
        · split at hdel
          · cases hdel
          · split at hdel
            · cases hdel
            · exact Or.inl hdel
  | onDisk script oVal =>
      cases oVal with
      | none => exact Or.inl hdel
      | some oVal =>
          simp only [spendStep] at hdel
          split at hdel
          · rename_i hkey
            exact Or.inr ⟨script, oVal, rfl, hkey⟩
          · split at hdel
            · cases hdel
            · split at hdel
              · cases hdel
              · exact Or.inl hdel

/-- A put a spend leaves at an `O` or `H` key was there before. -/
theorem spend_put {f : Key → Option (WriteOp Value)} {height : Int} {input : SpentInput}
    {found : Resolved} {k : Key} {value : Value} (hM : k ≠ input.mKey) (hK : ∀ s, k ≠ input.kKey s)
    (hput : spendStep height input found f k = some (.put value)) : f k = some (.put value) := by
  cases found with
  | missing => exact hput
  | inMem script =>
      simp only [spendStep, hM, hK, if_false] at hput
      split at hput
      · cases hput
      · split at hput <;> exact hput
  | onDisk script oVal =>
      cases oVal with
      | none => exact hput
      | some oVal =>
          simp only [spendStep, hM, hK, if_false] at hput
          split at hput
          · cases hput
          · exact hput

end UtxoTracker

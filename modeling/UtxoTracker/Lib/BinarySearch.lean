import Mathlib.Data.List.Nodup
/-!
# Lists kept sorted by a binary search

A search in a sorted list gives the position of a needle, or the negative number `-(k + 1)` of the
position `k` where it belongs. Inserting at that position and removing at the found one keep a list
sorted and change its members by that one element.
-/

namespace BinarySearch

variable {α : Type*}

/-- `compare` orders the elements of `domain`: its sign tells which comes first. -/
structure Consistent (compare : α → α → Int) (domain : α → Prop) : Prop where
  self : ∀ a, domain a → compare a a = 0
  eq_of_zero : ∀ a b, domain a → domain b → compare a b = 0 → a = b
  swap : ∀ a b, domain a → domain b → (compare a b < 0 ↔ 0 < compare b a)
  trans : ∀ a b c, domain a → domain b → domain c → compare a b < 0 → compare b c < 0 →
    compare a c < 0

def Sorted (compare : α → α → Int) (list : List α) : Prop :=
  list.Pairwise fun a b => compare a b < 0

/-- What a binary search promises on a sorted list. -/
structure Contract (search : List α → α → (α → α → Int) → Int) (compare : α → α → Int)
    (domain : α → Prop) : Prop where
  found : ∀ list needle, Sorted compare list → (∀ a ∈ list, domain a) → domain needle →
    0 ≤ search list needle compare →
      ∃ a, list[(search list needle compare).toNat]? = some a ∧ compare a needle = 0
  missing : ∀ list needle, Sorted compare list → (∀ a ∈ list, domain a) → domain needle →
    search list needle compare < 0 →
      (∀ a ∈ list.take (-search list needle compare - 1).toNat, compare a needle < 0) ∧
        ∀ a ∈ list.drop (-search list needle compare - 1).toNat, 0 < compare a needle

section

variable {search : List α → α → (α → α → Int) → Int} {compare : α → α → Int} {domain : α → Prop}
  {list : List α} {needle : α}

theorem Consistent.ne_of_lt (hcompare : Consistent compare domain) {a b : α} (ha : domain a)
    (hlt : compare a b < 0) : a ≠ b := by
  rintro rfl
  rw [hcompare.self a ha] at hlt
  omega

theorem Consistent.nodup (hcompare : Consistent compare domain) (hsorted : Sorted compare list)
    (hdomain : ∀ a ∈ list, domain a) : list.Nodup :=
  hsorted.imp_of_mem fun ha _ hlt => hcompare.ne_of_lt (hdomain _ ha) hlt

/-- A found needle is an element, and stands at the position given. -/
theorem Contract.getElem?_eq (hsearch : Contract search compare domain)
    (hcompare : Consistent compare domain) (hsorted : Sorted compare list)
    (hdomain : ∀ a ∈ list, domain a) (hneedle : domain needle)
    (hfound : 0 ≤ search list needle compare) :
    list[(search list needle compare).toNat]? = some needle := by
  obtain ⟨a, hget, hzero⟩ := hsearch.found list needle hsorted hdomain hneedle hfound
  have ha := hdomain a (List.mem_of_getElem? hget)
  rw [hget, hcompare.eq_of_zero a needle ha hneedle hzero]

/-- **The sign of a search tells membership.** -/
theorem Contract.nonneg_iff (hsearch : Contract search compare domain)
    (hcompare : Consistent compare domain) (hsorted : Sorted compare list)
    (hdomain : ∀ a ∈ list, domain a) (hneedle : domain needle) :
    0 ≤ search list needle compare ↔ needle ∈ list := by
  constructor
  · intro hfound
    exact List.mem_of_getElem?
      (hsearch.getElem?_eq hcompare hsorted hdomain hneedle hfound)
  · intro hmem
    rw [← Int.not_lt]
    intro hneg
    obtain ⟨hbelow, habove⟩ := hsearch.missing list needle hsorted hdomain hneedle hneg
    have hself := hcompare.self needle hneedle
    rw [← List.take_append_drop (-search list needle compare - 1).toNat list, List.mem_append] at hmem
    rcases hmem with hmem | hmem
    · have := hbelow needle hmem
      omega
    · have := habove needle hmem
      omega

/-- **Inserting a missing needle where it belongs keeps the list sorted.** -/
theorem Contract.sorted_insert (hsearch : Contract search compare domain)
    (hcompare : Consistent compare domain) (hsorted : Sorted compare list)
    (hdomain : ∀ a ∈ list, domain a) (hneedle : domain needle)
    (hneg : search list needle compare < 0) :
    Sorted compare (list.take (-search list needle compare - 1).toNat ++
      needle :: list.drop (-search list needle compare - 1).toNat) := by
  obtain ⟨hbelow, habove⟩ := hsearch.missing list needle hsorted hdomain hneedle hneg
  have hsplit := hsorted
  rw [Sorted, ← List.take_append_drop (-search list needle compare - 1).toNat list,
    List.pairwise_append] at hsplit
  obtain ⟨hleft, hright, hacross⟩ := hsplit
  rw [Sorted, List.pairwise_append, List.pairwise_cons]
  refine ⟨hleft, ⟨fun b hb => ?_, hright⟩, fun a ha b hb => ?_⟩
  · exact (hcompare.swap needle b hneedle (hdomain b (List.mem_of_mem_drop hb))).mpr (habove b hb)
  · rcases List.mem_cons.mp hb with rfl | hb
    · exact hbelow a ha
    · exact hacross a ha b hb

theorem mem_insert (k : Nat) {a : α} :
    a ∈ list.take k ++ needle :: list.drop k ↔ a = needle ∨ a ∈ list := by
  rw [List.mem_append, List.mem_cons, or_left_comm, ← List.mem_append, List.take_append_drop]

theorem Sorted.eraseIdx (hsorted : Sorted compare list) (k : Nat) :
    Sorted compare (list.eraseIdx k) := List.Pairwise.sublist (List.eraseIdx_sublist list k) hsorted

/-- Removing the found needle removes that element alone. -/
theorem Consistent.mem_eraseIdx (hcompare : Consistent compare domain)
    (hsorted : Sorted compare list) (hdomain : ∀ a ∈ list, domain a) {k : Nat}
    (hget : list[k]? = some needle) {a : α} :
    a ∈ list.eraseIdx k ↔ a ∈ list ∧ a ≠ needle := by
  classical
  obtain ⟨hk, hat⟩ := List.getElem?_eq_some_iff.mp hget
  have hnodup := hcompare.nodup hsorted hdomain
  rw [← hnodup.erase_getElem k hk, hat, hnodup.mem_erase_iff, and_comm]

end

/-! ### A search that meets the contract -/

/-- How many elements come before the needle. -/
def countBefore (compare : α → α → Int) (needle : α) : List α → Nat
  | [] => 0
  | a :: rest => if compare a needle < 0 then countBefore compare needle rest + 1 else 0

/-- The position at which the elements stop coming before the needle. -/
def searchFrom (list : List α) (needle : α) (compare : α → α → Int) : Int :=
  match list[countBefore compare needle list]? with
  | some a =>
      if compare a needle = 0 then countBefore compare needle list
      else -countBefore compare needle list - 1
  | none => -countBefore compare needle list - 1

section

variable {compare : α → α → Int} {domain : α → Prop} {list : List α} {needle : α}

theorem lt_of_mem_take_countBefore {a : α}
    (hmem : a ∈ list.take (countBefore compare needle list)) : compare a needle < 0 := by
  induction list with
  | nil => cases hmem
  | cons b rest ih =>
      rw [countBefore] at hmem
      split_ifs at hmem with hlt
      · rcases List.mem_cons.mp hmem with rfl | hmem
        · exact hlt
        · exact ih hmem
      · cases hmem

theorem not_lt_of_getElem?_countBefore {a : α}
    (hget : list[countBefore compare needle list]? = some a) : ¬compare a needle < 0 := by
  induction list with
  | nil => cases hget
  | cons b rest ih =>
      rw [countBefore] at hget
      split_ifs at hget with hlt
      · exact ih hget
      · rw [List.getElem?_cons_zero, Option.some.injEq] at hget
        exact hget ▸ hlt

theorem searchFrom_contract (hcompare : Consistent compare domain) :
    Contract searchFrom compare domain where
  found list needle _ _ _ hfound := by
    unfold searchFrom at hfound ⊢
    rcases hget : list[countBefore compare needle list]? with _ | a
    · rw [hget] at hfound
      dsimp only at hfound
      omega
    · rw [hget] at hfound
      dsimp only at hfound ⊢
      split_ifs at hfound ⊢ with hzero
      · exact ⟨a, hget, hzero⟩
      · omega
  missing list needle hsorted hdomain hneedle hneg := by
    have hposition : (-searchFrom list needle compare - 1).toNat =
        countBefore compare needle list := by
      unfold searchFrom at hneg ⊢
      rcases hget : list[countBefore compare needle list]? with _ | a
      · dsimp only
        omega
      · rw [hget] at hneg
        dsimp only at hneg ⊢
        split_ifs at hneg ⊢ <;> omega
    rw [hposition]
    refine ⟨fun a hmem => lt_of_mem_take_countBefore hmem, fun b hmem => ?_⟩
    rcases hrest : list.drop (countBefore compare needle list) with _ | ⟨a, rest⟩
    · rw [hrest] at hmem
      cases hmem
    have hget : list[countBefore compare needle list]? = some a := by
      rw [← List.head?_drop, hrest, List.head?_cons]
    have hnonneg := not_lt_of_getElem?_countBefore hget
    have hnonzero : compare a needle ≠ 0 := by
      intro hzero
      unfold searchFrom at hneg
      rw [hget] at hneg
      dsimp only at hneg
      rw [if_pos hzero] at hneg
      omega
    have ha := hdomain a (List.mem_of_getElem? hget)
    rw [hrest] at hmem
    have hdrop : Sorted compare (a :: rest) :=
      hrest ▸ List.Pairwise.sublist (List.drop_sublist _ list) hsorted
    rcases List.mem_cons.mp hmem with rfl | hmem
    · omega
    · have hb := hdomain b (List.mem_of_mem_drop (hrest ▸ List.mem_cons_of_mem a hmem))
      have hab := (List.pairwise_cons.mp hdrop).1 b hmem
      have hna := (hcompare.swap needle a hneedle ha).mpr (by omega)
      exact (hcompare.swap needle b hneedle hb).mp (hcompare.trans needle a b hneedle ha hb hna hab)

end

end BinarySearch

import Mathlib.Algebra.BigOperators.Group.Finset.Piecewise
import Mathlib.Data.List.Sort
/-!
# The streaming left anti-join

One pass over two key-ordered streams emits the left records whose key the right stream does not
have, and counts the right records whose key the left stream does not have.
-/

namespace AntiJoin

variable {α β κ : Type*} [LinearOrder κ] (leftKey : α → κ) (rightKey : β → κ)

/-- What a join gives: the surviving left records, and the number of orphans on the right. -/
structure JoinResult (α : Type*) where
  emitted : List α
  orphanSpends : Nat

/-- `joinRecords`. Equal keys cancel one record on either side. -/
def joinRecords : List α → List β → JoinResult α
  | [], right => ⟨[], right.length⟩
  | left, [] => ⟨left, 0⟩
  | l :: left, r :: right =>
      if leftKey l < rightKey r then
        let joined := joinRecords left (r :: right)
        ⟨l :: joined.emitted, joined.orphanSpends⟩
      else if rightKey r < leftKey l then
        let joined := joinRecords (l :: left) right
        ⟨joined.emitted, joined.orphanSpends + 1⟩
      else joinRecords left right
termination_by left right => left.length + right.length

variable {leftKey rightKey}

/-- **The join of two streams in strict key order** emits exactly the left records without a partner,
and counts exactly the right ones without. -/
theorem joinRecords_spec (left : List α) (right : List β)
    (hleft : left.Pairwise fun a b => leftKey a < leftKey b)
    (hright : right.Pairwise fun a b => rightKey a < rightKey b) :
    (joinRecords leftKey rightKey left right).emitted =
        left.filter (fun l => leftKey l ∉ right.map rightKey) ∧
      (joinRecords leftKey rightKey left right).orphanSpends =
        (right.filter fun r => rightKey r ∉ left.map leftKey).length := by
  induction left, right using joinRecords.induct leftKey rightKey with
  | case1 right => simp [joinRecords]
  | case2 left hne =>
      cases left with
      | nil => exact absurd rfl (hne)
      | cons l left => simp [joinRecords]
  | case3 l left r right hlt ih =>
      obtain ⟨hemitted, horphans⟩ := ih hleft.of_cons hright
      have hbelow : ∀ r' ∈ r :: right, leftKey l < rightKey r' := by
        intro r' hmem
        rcases List.mem_cons.mp hmem with rfl | hin
        · exact hlt
        · exact hlt.trans (List.rel_of_pairwise_cons hright hin)
      have hkeep : leftKey l ∉ (r :: right).map rightKey := by
        intro hmem
        obtain ⟨r', hin, heq⟩ := List.mem_map.mp hmem
        exact (hbelow r' hin).ne heq.symm
      rw [joinRecords, if_pos hlt]
      refine ⟨?_, ?_⟩
      · rw [List.filter_cons_of_pos (by simpa using hkeep), ← hemitted]
      · refine horphans.trans (congrArg List.length (List.filter_congr fun r' hin => ?_))
        have := (hbelow r' hin).ne'
        simp [this]
  | case4 l left r right hnlt hlt ih =>
      obtain ⟨hemitted, horphans⟩ := ih hleft hright.of_cons
      have hbelow : ∀ l' ∈ l :: left, rightKey r < leftKey l' := by
        intro l' hmem
        rcases List.mem_cons.mp hmem with rfl | hin
        · exact hlt
        · exact hlt.trans (List.rel_of_pairwise_cons hleft hin)
      have horphan : rightKey r ∉ (l :: left).map leftKey := by
        intro hmem
        obtain ⟨l', hin, heq⟩ := List.mem_map.mp hmem
        exact (hbelow l' hin).ne heq.symm
      rw [joinRecords, if_neg hnlt, if_pos hlt]
      refine ⟨?_, ?_⟩
      · refine hemitted.trans (List.filter_congr fun l' hin => ?_)
        have := (hbelow l' hin).ne'
        simp [this]
      · rw [List.filter_cons_of_pos (by simpa using horphan), List.length_cons, ← horphans]
  | case5 l left r right hnlt hnlt' ih =>
      obtain ⟨hemitted, horphans⟩ := ih hleft.of_cons hright.of_cons
      have heq : leftKey l = rightKey r := le_antisymm (not_lt.mp hnlt') (not_lt.mp hnlt)
      rw [joinRecords, if_neg hnlt, if_neg hnlt']
      refine ⟨?_, ?_⟩
      · rw [List.filter_cons_of_neg (by simp [heq])]
        refine hemitted.trans (List.filter_congr fun l' hin => ?_)
        have := (List.rel_of_pairwise_cons hleft hin).ne'
        rw [heq] at this
        simp [this]
      · rw [List.filter_cons_of_neg (by simp [heq])]
        refine horphans.trans (congrArg List.length (List.filter_congr fun r' hin => ?_))
        have := (List.rel_of_pairwise_cons hright hin).ne'
        rw [← heq] at this
        simp [this]

/-! ### Duplicate keys -/

section Duplicates

variable {left : List α} {right : List β}

/-- The records of a list that carry one key. -/
abbrev withKey (key : α → κ) (k : κ) (records : List α) : List α :=
  records.filter fun x => decide (key x = k)

theorem withKey_of_below {l : α} (hbelow : ∀ r ∈ right, leftKey l < rightKey r) :
    withKey rightKey (leftKey l) right = [] := by
  rw [List.filter_eq_nil_iff]
  intro r hr
  simpa using (hbelow r hr).ne'

/-- Left records that survive keep their order. -/
theorem joinRecords_sublist (left : List α) (right : List β) :
    (joinRecords leftKey rightKey left right).emitted.Sublist left := by
  induction left, right using joinRecords.induct leftKey rightKey with
  | case1 right => simp [joinRecords]
  | case2 left hne =>
      cases left with
      | nil => exact absurd rfl hne
      | cons l left => simp [joinRecords]
  | case3 l left r right hlt ih =>
      rw [joinRecords, if_pos hlt]
      exact ih.cons_cons l
  | case4 l left r right hnlt hlt ih => rwa [joinRecords, if_neg hnlt, if_pos hlt]
  | case5 l left r right hnlt hnlt' ih =>
      rw [joinRecords, if_neg hnlt, if_neg hnlt']
      exact ih.cons l

/-- **The join of two streams in key order**: the right records of a key cancel as many left ones,
the earliest first. -/
theorem joinRecords_withKey (left : List α) (right : List β)
    (hleft : left.Pairwise fun a b => leftKey a ≤ leftKey b)
    (hright : right.Pairwise fun a b => rightKey a ≤ rightKey b) (k : κ) :
    withKey leftKey k (joinRecords leftKey rightKey left right).emitted =
      (withKey leftKey k left).drop (withKey rightKey k right).length := by
  induction left, right using joinRecords.induct leftKey rightKey with
  | case1 right => simp [joinRecords]
  | case2 left hne =>
      cases left with
      | nil => exact absurd rfl hne
      | cons l left => simp [joinRecords]
  | case3 l left r right hlt ih =>
      have hrest := ih hleft.of_cons hright
      rw [joinRecords, if_pos hlt]
      by_cases hk : leftKey l = k
      · subst hk
        have hnone : withKey rightKey (leftKey l) (r :: right) = [] := by
          apply withKey_of_below
          intro r' hmem
          rcases List.mem_cons.mp hmem with rfl | hin
          · exact hlt
          · exact hlt.trans_le (List.rel_of_pairwise_cons hright hin)
        rw [hnone] at hrest ⊢
        simpa [withKey] using hrest
      · simpa [withKey, List.filter_cons, hk] using hrest
  | case4 l left r right hnlt hlt ih =>
      have hrest := ih hleft hright.of_cons
      rw [joinRecords, if_neg hnlt, if_pos hlt]
      by_cases hk : rightKey r = k
      · subst hk
        have hnone : withKey leftKey (rightKey r) (l :: left) = [] := by
          apply withKey_of_below
          intro l' hmem
          rcases List.mem_cons.mp hmem with rfl | hin
          · exact hlt
          · exact hlt.trans_le (List.rel_of_pairwise_cons hleft hin)
        rw [hnone] at hrest ⊢
        simpa using hrest
      · simpa [withKey, List.filter_cons, hk] using hrest
  | case5 l left r right hnlt hnlt' ih =>
      have hrest := ih hleft.of_cons hright.of_cons
      have heq : leftKey l = rightKey r := le_antisymm (not_lt.mp hnlt') (not_lt.mp hnlt)
      rw [joinRecords, if_neg hnlt, if_neg hnlt', hrest]
      by_cases hk : leftKey l = k
      · have hk' : rightKey r = k := heq.symm.trans hk
        simp [withKey, hk, hk']
      · have hk' : rightKey r ≠ k := fun h => hk (heq.trans h)
        simp [withKey, hk, hk']

/-- Left and right records pair off, but for the survivors and the orphans. -/
theorem joinRecords_balance (left : List α) (right : List β) :
    left.length + (joinRecords leftKey rightKey left right).orphanSpends =
      right.length + (joinRecords leftKey rightKey left right).emitted.length := by
  induction left, right using joinRecords.induct leftKey rightKey with
  | case1 right => simp [joinRecords]
  | case2 left hne =>
      cases left with
      | nil => exact absurd rfl hne
      | cons l left => simp [joinRecords]
  | case3 l left r right hlt ih =>
      rw [joinRecords, if_pos hlt]
      simp only [List.length_cons] at ih ⊢
      omega
  | case4 l left r right hnlt hlt ih =>
      rw [joinRecords, if_neg hnlt, if_pos hlt]
      simp only [List.length_cons] at ih ⊢
      omega
  | case5 l left r right hnlt hnlt' ih =>
      rw [joinRecords, if_neg hnlt, if_neg hnlt']
      simp only [List.length_cons]
      omega

/-- A list has as many records as its keys have. -/
theorem length_eq_sum_withKey {key : α → κ} {keys : Finset κ} {records : List α}
    (hkeys : ∀ x ∈ records, key x ∈ keys) :
    records.length = ∑ k ∈ keys, (withKey key k records).length := by
  induction records with
  | nil => simp
  | cons x rest ih =>
      have hstep : ∀ k, (withKey key k (x :: rest)).length =
          (if key x = k then 1 else 0) + (withKey key k rest).length := by
        intro k
        by_cases hk : key x = k <;> simp [withKey, hk, Nat.add_comm]
      rw [List.length_cons, ih fun y hy => hkeys y (List.mem_cons_of_mem _ hy)]
      simp only [hstep, Finset.sum_add_distrib]
      rw [Finset.sum_ite_eq, if_pos (hkeys x List.mem_cons_self), Nat.add_comm]

/-- **The counts of a join**, summed over the keys of both sides. -/
theorem joinRecords_counts {keys : Finset κ}
    (hleft : left.Pairwise fun a b => leftKey a ≤ leftKey b)
    (hright : right.Pairwise fun a b => rightKey a ≤ rightKey b)
    (hleftKeys : ∀ l ∈ left, leftKey l ∈ keys) (hrightKeys : ∀ r ∈ right, rightKey r ∈ keys) :
    left.length = (joinRecords leftKey rightKey left right).emitted.length +
        ∑ k ∈ keys, min (withKey leftKey k left).length (withKey rightKey k right).length ∧
      (joinRecords leftKey rightKey left right).orphanSpends =
        ∑ k ∈ keys, ((withKey rightKey k right).length - (withKey leftKey k left).length) := by
  have hemitted : (joinRecords leftKey rightKey left right).emitted.length =
      ∑ k ∈ keys, ((withKey leftKey k left).length - (withKey rightKey k right).length) := by
    rw [length_eq_sum_withKey fun l hl => hleftKeys l ((joinRecords_sublist left right).subset hl)]
    refine Finset.sum_congr rfl fun k _ => ?_
    rw [joinRecords_withKey left right hleft hright k, List.length_drop]
  have hlength := length_eq_sum_withKey hleftKeys
  have hlength' := length_eq_sum_withKey hrightKeys
  have hbalance := @joinRecords_balance _ _ _ _ leftKey rightKey left right
  have hpairs : left.length = ∑ k ∈ keys,
      (((withKey leftKey k left).length - (withKey rightKey k right).length) +
        min (withKey leftKey k left).length (withKey rightKey k right).length) := by
    rw [hlength]
    refine Finset.sum_congr rfl fun k _ => ?_
    omega
  have horphans : left.length + ∑ k ∈ keys,
      ((withKey rightKey k right).length - (withKey leftKey k left).length) =
        right.length + ∑ k ∈ keys,
          ((withKey leftKey k left).length - (withKey rightKey k right).length) := by
    rw [hlength, hlength', ← Finset.sum_add_distrib, ← Finset.sum_add_distrib]
    refine Finset.sum_congr rfl fun k _ => ?_
    omega
  rw [Finset.sum_add_distrib] at hpairs
  exact ⟨by omega, by omega⟩

end Duplicates

end AntiJoin

import Mathlib.Data.List.DropRight
import Mathlib.Data.List.Nodup
import Mathlib.Algebra.Ring.Parity
import Mathlib.Data.Nat.Log
/-!
# Merkle trees that repeat an odd last node

A level is folded into the next one pair by pair; the last node of an odd level is paired with
itself. Two lists can then share a root: the one repeats the trailing group of the other. Such a
list shows itself, for somewhere it pairs two nodes that are equal.
-/

namespace MerkleTree

variable {α : Type*} (node : α → α → α)

/-- The pairs of a level, an odd last node twice. -/
def pairs : List α → List (α × α)
  | [] => []
  | [x] => [(x, x)]
  | x :: y :: rest => (x, y) :: pairs rest

def pairUp (level : List α) : List α := (pairs level).map fun p => node p.1 p.2

/-- Two nodes of the level that are paired are equal; an odd last node does not count. -/
def hasTwin [DecidableEq α] : List α → Bool
  | x :: y :: rest => x == y || hasTwin rest
  | _ => false

@[simp] theorem length_pairs (level : List α) : (pairs level).length = (level.length + 1) / 2 := by
  induction level using pairs.induct with
  | case1 => simp [pairs]
  | case2 x => simp [pairs]
  | case3 x y rest ih =>
      rw [pairs, List.length_cons, ih, List.length_cons, List.length_cons]
      omega

@[simp] theorem length_pairUp (level : List α) :
    (pairUp node level).length = (level.length + 1) / 2 := by
  rw [pairUp, List.length_map, length_pairs]

/-- Fold the levels up to the root, and say whether any paired two equal nodes. -/
def fold [DecidableEq α] (level : List α) (mutated : Bool) : Option α × Bool :=
  if 1 < level.length then fold (pairUp node level) (mutated || hasTwin level)
  else (level.head?, mutated)
termination_by level.length
decreasing_by
  rw [length_pairUp]
  omega

/-- The level `j` steps up. -/
def levelAt : Nat → List α → List α
  | 0, level => level
  | j + 1, level => levelAt j (pairUp node level)

/-- The pairs that are hashed on the way up. -/
def hashed (level : List α) : List (α × α) :=
  if 1 < level.length then pairs level ++ hashed (pairUp node level) else []
termination_by level.length
decreasing_by
  rw [length_pairUp]
  omega

variable {node}

theorem hashed_pairUp {level : List α} (hlong : 1 < level.length) :
    hashed node level = pairs level ++ hashed node (pairUp node level) := by
  rw [hashed, if_pos hlong]

theorem pairUp_append {front : List α} (heven : 2 ∣ front.length) (rest : List α) :
    pairUp node (front ++ rest) = pairUp node front ++ pairUp node rest := by
  induction front using pairs.induct with
  | case1 => rfl
  | case2 x =>
      rw [List.length_singleton] at heven
      omega
  | case3 x y front ih =>
      have hrest : 2 ∣ front.length := by
        simp only [List.length_cons] at heven
        omega
      have := ih hrest
      simp only [pairUp] at this ⊢
      rw [List.cons_append, List.cons_append, pairs, pairs, List.map_cons, List.map_cons, this,
        List.cons_append]

/-! ### The mutation flag -/

section Mutation

variable [DecidableEq α]

theorem fold_eq (level : List α) (mutated : Bool) :
    fold node level mutated = ((fold node level false).1, mutated || (fold node level false).2) := by
  induction level using hashed.induct node generalizing mutated with
  | case1 level hlong ih =>
      have hflag := ih (false || hasTwin level)
      rw [fold, if_pos hlong, ih]
      conv_rhs => rw [fold, if_pos hlong]
      rw [hflag, Bool.false_or, Bool.or_assoc]
  | case2 level hshort =>
      rw [fold, if_neg hshort]
      conv_rhs => rw [fold, if_neg hshort]
      rw [Bool.or_false]

variable (node) in
/-- The root, and whether a level paired two equal nodes, one level up. -/
theorem fold_pairUp {level : List α} (hlong : 1 < level.length) :
    (fold node level false).1 = (fold node (pairUp node level) false).1 ∧
      (fold node level false).2 = (hasTwin level || (fold node (pairUp node level) false).2) := by
  conv_lhs => rw [fold, if_pos hlong, Bool.false_or, fold_eq]
  conv_rhs => rw [fold, if_pos hlong, Bool.false_or, fold_eq]
  exact ⟨rfl, rfl⟩

theorem fold_short {level : List α} (hshort : ¬1 < level.length) :
    fold node level false = (level.head?, false) := by
  rw [fold, if_neg hshort]

theorem hasTwin_short {level : List α} (hshort : ¬1 < level.length) : hasTwin level = false := by
  match level with
  | [] => rfl
  | [x] => rfl
  | x :: y :: rest =>
      simp only [List.length_cons] at hshort
      omega

omit [DecidableEq α] in
theorem length_levelAt_short {level : List α} (hshort : ¬1 < level.length) (j : Nat) :
    ¬1 < (levelAt node j level).length := by
  induction j generalizing level with
  | zero => exact hshort
  | succ j ih =>
      apply ih
      rw [length_pairUp]
      omega

/-- **The flag** is set when a level pairs two equal nodes, and only then. -/
theorem fold_mutated_iff (level : List α) :
    (fold node level false).2 = true ↔ ∃ j, hasTwin (levelAt node j level) = true := by
  induction level using hashed.induct node with
  | case1 level hlong ih =>
      rw [(fold_pairUp node hlong).2, Bool.or_eq_true, ih]
      refine ⟨?_, ?_⟩
      · rintro (htwin | ⟨j, htwin⟩)
        · exact ⟨0, htwin⟩
        · exact ⟨j + 1, htwin⟩
      · rintro ⟨j, htwin⟩
        cases j with
        | zero => exact .inl htwin
        | succ j => exact .inr ⟨j, htwin⟩
  | case2 level hshort =>
      rw [fold_short hshort]
      refine ⟨fun h => absurd h Bool.false_ne_true, ?_⟩
      rintro ⟨j, htwin⟩
      rw [hasTwin_short (length_levelAt_short hshort j)] at htwin
      cases htwin

/-- Two nodes are paired when the first has an even index. -/
theorem hasTwin_iff {level : List α} :
    hasTwin level = true ↔
      ∃ i x, level[2 * i]? = some x ∧ level[2 * i + 1]? = some x := by
  induction level using pairs.induct with
  | case1 => simp [hasTwin]
  | case2 x => simp [hasTwin]
  | case3 x y rest ih =>
      rw [hasTwin, Bool.or_eq_true, beq_iff_eq, ih]
      refine ⟨?_, ?_⟩
      · rintro (rfl | ⟨i, z, hleft, hright⟩)
        · exact ⟨0, x, rfl, rfl⟩
        · exact ⟨i + 1, z, hleft, hright⟩
      · rintro ⟨i, z, hleft, hright⟩
        cases i with
        | zero =>
            left
            simp only [Nat.mul_zero, List.getElem?_cons_zero, Option.some.injEq, Nat.zero_add,
              List.getElem?_cons_succ] at hleft hright
            exact hleft.trans hright.symm
        | succ i => exact .inr ⟨i, z, hleft, hright⟩

/-- Distinct nodes are no twins. -/
theorem hasTwin_of_nodup {level : List α} (hnodup : level.Nodup) : hasTwin level = false := by
  by_contra hnot
  obtain ⟨i, x, hleft, hright⟩ := hasTwin_iff.mp ((Bool.not_eq_false (hasTwin level)).mp hnot)
  obtain ⟨hi, hget⟩ := List.getElem?_eq_some_iff.mp hleft
  obtain ⟨hi', hget'⟩ := List.getElem?_eq_some_iff.mp hright
  have := (List.Nodup.getElem_inj_iff hnodup).mp (hget.trans hget'.symm)
  omega

end Mutation

/-! ### Injectivity -/

/-- Two levels whose pairs are hashed apart. -/
def Apart (node : α → α → α) (hashes : List (α × α)) : Prop :=
  ∀ p ∈ hashes, ∀ q ∈ hashes, node p.1 p.2 = node q.1 q.2 → p = q

section Binding

variable [DecidableEq α]

/-- Levels without twins are known by their pairs. -/
theorem pairs_injective {level level' : List α} (htwin : hasTwin level = false)
    (htwin' : hasTwin level' = false) (hpairs : pairs level = pairs level') : level = level' := by
  induction level using pairs.induct generalizing level' with
  | case1 =>
      match level' with
      | [] => rfl
      | [x] => simp [pairs] at hpairs
      | x :: y :: rest => simp [pairs] at hpairs
  | case2 x =>
      match level' with
      | [] => simp [pairs] at hpairs
      | [y] => simpa [pairs] using hpairs
      | y :: z :: rest =>
          simp only [pairs, List.cons.injEq, Prod.mk.injEq] at hpairs
          simp [hasTwin, ← hpairs.1.1, ← hpairs.1.2] at htwin'
  | case3 x y rest ih =>
      match level' with
      | [] => simp [pairs] at hpairs
      | [z] =>
          simp only [pairs, List.cons.injEq, Prod.mk.injEq] at hpairs
          simp [hasTwin, hpairs.1.1, hpairs.1.2] at htwin
      | x' :: y' :: rest' =>
          simp only [pairs, List.cons.injEq, Prod.mk.injEq] at hpairs
          rw [hasTwin, Bool.or_eq_false_iff] at htwin htwin'
          rw [hpairs.1.1, hpairs.1.2, ih htwin.2 htwin'.2 hpairs.2]

omit [DecidableEq α] in
theorem pairs_eq_of_pairUp {hashes : List (α × α)} (hapart : Apart node hashes)
    {level level' : List α} (hmem : ∀ p ∈ pairs level, p ∈ hashes)
    (hmem' : ∀ p ∈ pairs level', p ∈ hashes) (heq : pairUp node level = pairUp node level') :
    pairs level = pairs level' := by
  unfold pairUp at heq
  generalize pairs level = ps at hmem heq
  generalize pairs level' = qs at hmem' heq
  induction ps generalizing qs with
  | nil => simpa using heq.symm
  | cons p ps ih =>
      cases qs with
      | nil => simp at heq
      | cons q qs =>
          simp only [List.map_cons, List.cons.injEq] at heq
          rw [hapart p (hmem p List.mem_cons_self) q (hmem' q List.mem_cons_self) heq.1,
            ih (fun r hr => hmem r (List.mem_cons_of_mem _ hr)) qs
              (fun r hr => hmem' r (List.mem_cons_of_mem _ hr)) heq.2]

omit [DecidableEq α] in
variable (node) in
theorem clog_pairUp {level : List α} (hlong : 1 < level.length) :
    Nat.clog 2 level.length = Nat.clog 2 (pairUp node level).length + 1 := by
  rw [Nat.clog_of_two_le (by omega) hlong, length_pairUp]
  rfl

/-- **The root binds the list**: among lists of one height that no level marks as ambiguous. -/
theorem eq_of_root_eq {hashes : List (α × α)} (hapart : Apart node hashes) {level level' : List α}
    (hmem : ∀ p ∈ hashed node level, p ∈ hashes) (hmem' : ∀ p ∈ hashed node level', p ∈ hashes)
    (hne : level ≠ []) (hne' : level' ≠ [])
    (hheight : Nat.clog 2 level.length = Nat.clog 2 level'.length)
    (hfold : (fold node level false).2 = false) (hfold' : (fold node level' false).2 = false)
    (hroot : (fold node level false).1 = (fold node level' false).1) : level = level' := by
  induction level using hashed.induct node generalizing level' with
  | case1 level hlong ih =>
      have hlong' : 1 < level'.length := by
        by_contra hshort
        rw [Nat.clog_of_right_le_one (by omega : level'.length ≤ 1)] at hheight
        exact absurd hheight (Nat.clog_pos (by omega) hlong).ne'
      rw [hashed_pairUp hlong] at hmem
      rw [hashed_pairUp hlong'] at hmem'
      rw [clog_pairUp node hlong, clog_pairUp node hlong'] at hheight
      obtain ⟨hup, hflag⟩ := fold_pairUp node hlong
      obtain ⟨hup', hflag'⟩ := fold_pairUp node hlong'
      rw [hflag, Bool.or_eq_false_iff] at hfold
      rw [hflag', Bool.or_eq_false_iff] at hfold'
      have hnext : ∀ {level : List α}, 1 < level.length → pairUp node level ≠ [] := by
        intro level hlong hnil
        have hlength := length_pairUp node level
        rw [hnil, List.length_nil] at hlength
        omega
      have hlevels := ih (fun p hp => hmem p (List.mem_append_right _ hp))
        (fun p hp => hmem' p (List.mem_append_right _ hp)) (hnext hlong) (hnext hlong')
        (by omega) hfold.2 hfold'.2 (by rw [← hup, ← hup', hroot])
      exact pairs_injective hfold.1 hfold'.1 (pairs_eq_of_pairUp hapart
        (fun p hp => hmem p (List.mem_append_left _ hp))
        (fun p hp => hmem' p (List.mem_append_left _ hp)) hlevels)
  | case2 level hshort =>
      have hshort' : ¬1 < level'.length := by
        intro hlong'
        rw [Nat.clog_of_right_le_one (by omega : level.length ≤ 1)] at hheight
        exact absurd hheight.symm (Nat.clog_pos (by omega) hlong').ne'
      rw [fold_short hshort, fold_short hshort'] at hroot
      obtain ⟨x, rfl⟩ : ∃ x, level = [x] := by
        refine List.length_eq_one_iff.mp ?_
        have := List.length_pos_iff.mpr hne
        omega
      obtain ⟨y, rfl⟩ : ∃ y, level' = [y] := by
        refine List.length_eq_one_iff.mp ?_
        have := List.length_pos_iff.mpr hne'
        omega
      simpa using hroot

omit [DecidableEq α] in
theorem fst_mem_of_mem_pairs {level : List α} {p : α × α} (hp : p ∈ pairs level) : p.1 ∈ level := by
  induction level using pairs.induct with
  | case1 => simp [pairs] at hp
  | case2 x => simp_all [pairs]
  | case3 x y rest ih =>
      rw [pairs] at hp
      rcases List.mem_cons.mp hp with rfl | hin
      · exact List.mem_cons_self
      · exact List.mem_cons_of_mem _ (List.mem_cons_of_mem _ (ih hin))

omit [DecidableEq α] in
theorem nodup_pairs {level : List α} (hnodup : level.Nodup) : (pairs level).Nodup := by
  induction level using pairs.induct with
  | case1 => simp [pairs]
  | case2 x => simp [pairs]
  | case3 x y rest ih =>
      obtain ⟨hx, hrest⟩ := List.nodup_cons.mp hnodup
      rw [pairs]
      refine List.nodup_cons.mpr ⟨fun hin => hx ?_, ih hrest.of_cons⟩
      exact List.mem_cons_of_mem _ (fst_mem_of_mem_pairs hin)

/-- **Distinct leaves are never marked**, however often the tree repeats an odd last node. -/
theorem fold_of_nodup {hashes : List (α × α)} (hapart : Apart node hashes) {level : List α}
    (hmem : ∀ p ∈ hashed node level, p ∈ hashes) (hnodup : level.Nodup) :
    (fold node level false).2 = false := by
  induction level using hashed.induct node with
  | case1 level hlong ih =>
      rw [hashed_pairUp hlong] at hmem
      rw [(fold_pairUp node hlong).2, hasTwin_of_nodup hnodup, Bool.false_or]
      refine ih (fun p hp => hmem p (List.mem_append_right _ hp)) ?_
      refine (nodup_pairs hnodup).map_on fun p hp q hq heq => ?_
      exact hapart p (hmem p (List.mem_append_left _ hp)) q (hmem q (List.mem_append_left _ hq)) heq
  | case2 level hshort => rw [fold_short hshort]

end Binding

/-! ### Repeating a trailing group -/

/-- The list with its last group of `2 ^ j` leaves filled up as the tree fills it. -/
def completeGroup : Nat → List α → List α
  | 0, leaves => leaves
  | j + 1, leaves =>
      let leaves := completeGroup j leaves
      if leaves.length / 2 ^ j % 2 = 1 then leaves ++ leaves.rtake (2 ^ j) else leaves

/-- The list with its trailing group of `2 ^ j` leaves repeated. -/
def repeatGroup (j : Nat) (leaves : List α) : List α :=
  completeGroup j leaves ++ (completeGroup j leaves).rtake (2 ^ j)

theorem levelAt_succ (j : Nat) (level : List α) :
    levelAt node (j + 1) level = pairUp node (levelAt node j level) := by
  induction j generalizing level with
  | zero => rfl
  | succ j ih => exact ih (pairUp node level)

/-- Whole groups are folded each on its own. -/
theorem levelAt_append {j : Nat} {front : List α} (hwhole : 2 ^ j ∣ front.length) (rest : List α) :
    levelAt node j (front ++ rest) = levelAt node j front ++ levelAt node j rest := by
  induction j generalizing front rest with
  | zero => rfl
  | succ j ih =>
      have heven : 2 ∣ front.length := Nat.dvd_trans (Nat.dvd_mul_left 2 (2 ^ j)) hwhole
      have hhalf : 2 ^ j ∣ (pairUp node front).length := by
        obtain ⟨k, hk⟩ := hwhole
        refine ⟨k, ?_⟩
        rw [length_pairUp, hk, Nat.pow_succ, Nat.mul_comm (2 ^ j) 2, Nat.mul_assoc]
        omega
      rw [levelAt, pairUp_append heven, ih hhalf]
      rfl

variable (node) in
theorem length_levelAt {j : Nat} {level : List α} {k : Nat} (hlength : level.length = 2 ^ j * k) :
    (levelAt node j level).length = k := by
  induction j generalizing level with
  | zero => simpa [levelAt] using hlength
  | succ j ih =>
      refine ih ?_
      rw [length_pairUp, hlength, Nat.pow_succ, Nat.mul_comm (2 ^ j) 2, Nat.mul_assoc]
      omega

variable (node) in
/-- Repeating the last whole group of leaves repeats the last node of its level. -/
theorem levelAt_repeat {j k : Nat} {leaves : List α} (hlength : leaves.length = 2 ^ j * (k + 1)) :
    ∃ front last, levelAt node j leaves = front ++ [last] ∧ front.length = k ∧
      levelAt node j (leaves ++ leaves.rtake (2 ^ j)) = front ++ [last, last] := by
  have hpos : 0 < 2 ^ j := Nat.two_pow_pos j
  have hgroup : (leaves.rtake (2 ^ j)).length = 2 ^ j * 1 := by
    rw [List.rtake, List.length_drop, hlength, Nat.mul_succ]
    omega
  have hfront : (leaves.take (leaves.length - 2 ^ j)).length = 2 ^ j * k := by
    rw [List.length_take, hlength, Nat.mul_succ]
    omega
  have hsplit : leaves = leaves.take (leaves.length - 2 ^ j) ++ leaves.rtake (2 ^ j) :=
    (List.take_append_drop _ _).symm
  obtain ⟨last, hlast⟩ := List.length_eq_one_iff.mp (length_levelAt node hgroup)
  have hwhole : levelAt node j leaves =
      levelAt node j (leaves.take (leaves.length - 2 ^ j)) ++ [last] := by
    conv_lhs => rw [hsplit]
    rw [levelAt_append (hfront ▸ Nat.dvd_mul_right _ _), hlast]
  refine ⟨_, last, hwhole, length_levelAt node hfront, ?_⟩
  rw [levelAt_append (hlength ▸ Nat.dvd_mul_right _ _), hlast, hwhole, List.append_assoc]
  rfl

/-- A level that ends in its last node twice is folded as if it ended in it once. -/
theorem pairUp_twice {front : List α} (heven : 2 ∣ front.length) (last : α) :
    pairUp node (front ++ [last, last]) = pairUp node (front ++ [last]) := by
  rw [pairUp_append heven, pairUp_append heven]
  rfl

variable (node) in
theorem completeGroup_spec (j : Nat) (leaves : List α) :
    2 ^ j ∣ (completeGroup j leaves).length ∧
      levelAt node j (completeGroup j leaves) = levelAt node j leaves := by
  induction j with
  | zero => exact ⟨Nat.one_dvd _, rfl⟩
  | succ j ih =>
      obtain ⟨⟨n, hn⟩, hlevel⟩ := ih
      have hquot : (completeGroup j leaves).length / 2 ^ j = n := by
        rw [hn, Nat.mul_div_cancel_left _ (Nat.two_pow_pos j)]
      rw [completeGroup, hquot, levelAt_succ, levelAt_succ, ← hlevel, Nat.pow_succ]
      by_cases hodd : n % 2 = 1
      · obtain ⟨k, rfl⟩ : ∃ k, n = k + 1 := ⟨n - 1, by omega⟩
        obtain ⟨front, last, hlast, hfront, hrepeat⟩ := levelAt_repeat node hn
        rw [if_pos hodd, hrepeat, hlast, pairUp_twice (by omega)]
        refine ⟨?_, rfl⟩
        have hgroup : ((completeGroup j leaves).rtake (2 ^ j)).length = 2 ^ j := by
          rw [List.rtake, List.length_drop, hn]
          exact Nat.sub_sub_self (Nat.le_mul_of_pos_right _ (Nat.succ_pos k))
        rw [List.length_append, hgroup, hn, ← Nat.mul_succ]
        exact Nat.mul_dvd_mul_left _ (by omega)
      · rw [if_neg hodd, hn]
        exact ⟨Nat.mul_dvd_mul_left _ (by omega), rfl⟩

/-- **The level of a repeated group** ends in its last node twice. -/
theorem levelAt_repeatGroup {j : Nat} {leaves : List α}
    (hne : levelAt node j leaves ≠ []) :
    ∃ front last, levelAt node j leaves = front ++ [last] ∧
      levelAt node j (repeatGroup j leaves) = front ++ [last, last] := by
  obtain ⟨⟨n, hn⟩, hlevel⟩ := completeGroup_spec node j leaves
  have hcount := length_levelAt node hn
  rw [hlevel] at hcount
  obtain ⟨k, rfl⟩ : ∃ k, n = k + 1 := by
    refine ⟨n - 1, ?_⟩
    have := List.length_pos_iff.mpr hne
    omega
  obtain ⟨front, last, hlast, -, hrepeat⟩ := levelAt_repeat node hn
  exact ⟨front, last, hlevel.symm.trans hlast, hrepeat⟩

section Repeats

variable [DecidableEq α]

theorem hasTwin_twice {front : List α} (heven : 2 ∣ front.length) (last : α) :
    hasTwin (front ++ [last, last]) = true := by
  obtain ⟨i, hi⟩ := heven
  refine hasTwin_iff.mpr ⟨i, last, ?_, ?_⟩
  · rw [← hi, List.getElem?_append_right le_rfl, Nat.sub_self]
    rfl
  · rw [← hi, List.getElem?_append_right (by omega), Nat.add_sub_cancel_left]
    rfl

/-- The root of a list is that of a level above one of several nodes. -/
theorem fold_levelAt {j : Nat} {level : List α} (hlong : 1 < (levelAt node j level).length) :
    (fold node level false).1 = (fold node (levelAt node (j + 1) level) false).1 := by
  induction j generalizing level with
  | zero => exact (fold_pairUp node hlong).1
  | succ j ih =>
      have hbelow : 1 < level.length := by
        by_contra hshort
        exact length_levelAt_short hshort (j + 1) hlong
      exact ((fold_pairUp node hbelow).1).trans (ih hlong)

/-- **A list with its trailing group repeated** has the root of the list, and is marked. -/
theorem fold_repeatGroup {j : Nat} {leaves : List α} (hodd : Odd (levelAt node j leaves).length) :
    (fold node (repeatGroup j leaves) false).2 = true ∧
      (1 < (levelAt node j leaves).length →
        (fold node (repeatGroup j leaves) false).1 = (fold node leaves false).1) := by
  have hne : levelAt node j leaves ≠ [] := by
    intro hnil
    rw [hnil] at hodd
    obtain ⟨m, hm⟩ := hodd
    rw [List.length_nil] at hm
    omega
  obtain ⟨front, last, hlast, hrepeat⟩ := levelAt_repeatGroup hne
  have heven : 2 ∣ front.length := by
    rw [hlast, List.length_append, List.length_singleton] at hodd
    obtain ⟨m, hm⟩ := hodd
    omega
  refine ⟨(fold_mutated_iff _).mpr ⟨j, ?_⟩, fun hlong => ?_⟩
  · rw [hrepeat, hasTwin_twice heven]
  · have hlong' : 1 < (levelAt node j (repeatGroup j leaves)).length := by
      rw [hrepeat, List.length_append]
      exact Nat.lt_of_lt_of_le Nat.one_lt_two (Nat.le_add_left _ _)
    rw [fold_levelAt hlong', fold_levelAt hlong, levelAt_succ, levelAt_succ, hrepeat, hlast,
      pairUp_twice heven]

end Repeats

end MerkleTree

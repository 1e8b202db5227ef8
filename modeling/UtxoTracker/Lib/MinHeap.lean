import Mathlib.Order.WithBot
/-!
# A binary min-heap

A heap kept in an array, the children of position `i` at `2 * i + 1` and `2 * i + 2`, over elements
ranked by a linear order. `push` and `pop` keep the order and the elements, and `pop` gives a least
one.
-/

namespace MinHeap

variable {α κ : Type*} [LinearOrder κ] (rank : α → κ)

/-- The position above `i`. -/
def parent (i : Nat) : Nat := (i - 1) / 2

/-- Is the element at `i` ranked below the one at `j`? -/
def less (nodes : Array α) (i j : Nat) : Bool :=
  match nodes[i]?, nodes[j]? with
  | some a, some b => rank a < rank b
  | _, _ => false

/-- Move the element at `i` up to its place. -/
def siftUp (nodes : Array α) (i : Nat) : Array α :=
  if _h : 0 < i then
    if less rank nodes i (parent i) then siftUp (nodes.swapIfInBounds i (parent i)) (parent i)
    else nodes
  else nodes
termination_by i
decreasing_by
  unfold parent
  omega

def push (nodes : Array α) (x : α) : Array α := siftUp rank (nodes.push x) nodes.size

/-- The least of position `i` and its children. -/
def smallest (nodes : Array α) (i : Nat) : Nat :=
  let left := if less rank nodes (2 * i + 1) i then 2 * i + 1 else i
  if less rank nodes (2 * i + 2) left then 2 * i + 2 else left

theorem lt_of_less {nodes : Array α} {i j : Nat} (hless : less rank nodes i j = true) :
    i < nodes.size := by
  unfold less at hless
  split at hless
  · next hi _ => exact (Array.getElem?_eq_some_iff.mp hi).1
  · cases hless

theorem smallest_cases (nodes : Array α) (i : Nat) :
    smallest rank nodes i = i ∨
      (smallest rank nodes i = 2 * i + 1 ∨ smallest rank nodes i = 2 * i + 2) ∧
        smallest rank nodes i < nodes.size := by
  simp only [smallest]
  split_ifs with hleft hright hright
  · exact Or.inr ⟨Or.inr rfl, lt_of_less rank hright⟩
  · exact Or.inr ⟨Or.inl rfl, lt_of_less rank hleft⟩
  · exact Or.inr ⟨Or.inr rfl, lt_of_less rank hright⟩
  · exact Or.inl rfl

/-- Move the element at `i` down to its place. -/
def siftDown (nodes : Array α) (i : Nat) : Array α :=
  if _h : smallest rank nodes i = i then nodes
  else siftDown (nodes.swapIfInBounds i (smallest rank nodes i)) (smallest rank nodes i)
termination_by nodes.size - i
decreasing_by
  rw [Array.size_swapIfInBounds]
  rcases smallest_cases rank nodes i with heq | ⟨hchild, hlt⟩
  · exact absurd heq ‹_›
  · omega

/-- Take the root. The last element fills its place. -/
def pop (nodes : Array α) : Option (α × Array α) :=
  match nodes[0]?, nodes.back? with
  | some top, some last =>
      if nodes.pop.size = 0 then some (top, nodes.pop)
      else some (top, siftDown rank (nodes.pop.setIfInBounds 0 last) 0)
  | _, _ => none

/-! ### Ranks by position -/

/-- The rank at a position, above every rank outside the array. -/
def rankAt (nodes : Array α) (i : Nat) : WithTop κ :=
  match nodes[i]? with
  | some a => (rank a : WithTop κ)
  | none => ⊤

/-- No element is ranked below its parent. -/
def IsHeap (nodes : Array α) : Prop :=
  ∀ i, 0 < i → rankAt rank nodes (parent i) ≤ rankAt rank nodes i

variable {rank} {nodes : Array α} {i j : Nat}

omit [LinearOrder κ] in
theorem rankAt_of_le (hi : nodes.size ≤ i) : rankAt rank nodes i = ⊤ := by
  rw [rankAt, Array.getElem?_eq_none hi]

theorem less_iff (hj : j < nodes.size) :
    less rank nodes i j = true ↔ rankAt rank nodes i < rankAt rank nodes j := by
  unfold less rankAt
  rw [Array.getElem?_eq_getElem hj]
  cases nodes[i]? <;> simp

omit [LinearOrder κ] in
theorem rankAt_swap (rank : α → κ) (hi : i < nodes.size) (hj : j < nodes.size) (k : Nat) :
    rankAt rank (nodes.swapIfInBounds i j) k =
      if k = i then rankAt rank nodes j else if k = j then rankAt rank nodes i
      else rankAt rank nodes k := by
  have hswap : (nodes.swapIfInBounds i j)[k]? =
      if k = i then nodes[j]? else if k = j then nodes[i]? else nodes[k]? := by
    rw [Array.swapIfInBounds_def, dif_pos hi, dif_pos hj, Array.getElem?_swap,
      Array.getElem?_eq_getElem hi, Array.getElem?_eq_getElem hj]
    by_cases hki : k = i
    · subst hki
      by_cases hjk : j = k
      · subst hjk
        simp
      · simp [hjk]
    · have hik : ¬ i = k := fun heq => hki heq.symm
      simp only [if_neg hki, if_neg hik, eq_comm (a := j)]
  simp only [rankAt, hswap]
  split_ifs <;> rfl

/-- The root of a heap is a least element. -/
theorem IsHeap.root_le (hheap : IsHeap rank nodes) (i : Nat) :
    rankAt rank nodes 0 ≤ rankAt rank nodes i := by
  induction i using Nat.strong_induction_on with
  | _ i ih =>
      rcases Nat.eq_zero_or_pos i with rfl | hpos
      · exact le_rfl
      · exact (ih (parent i) (by unfold parent; omega)).trans (hheap i hpos)

/-! ### Moving up -/

/-- A heap but for position `i`, whose children are no less than the element above it. -/
structure UpHeap (rank : α → κ) (nodes : Array α) (i : Nat) : Prop where
  except : ∀ j, 0 < j → j ≠ i → rankAt rank nodes (parent j) ≤ rankAt rank nodes j
  grand : 0 < i → ∀ j, 0 < j → parent j = i →
    rankAt rank nodes (parent i) ≤ rankAt rank nodes j

theorem parent_lt (hi : 0 < i) : parent i < i := by
  unfold parent
  omega

/-- One step up. -/
theorem UpHeap.swap (hup : UpHeap rank nodes i) (hi : 0 < i) (hlt : i < nodes.size)
    (hless : rankAt rank nodes i < rankAt rank nodes (parent i)) :
    UpHeap rank (nodes.swapIfInBounds i (parent i)) (parent i) := by
  have hparent := parent_lt hi
  have hrank := rankAt_swap rank hlt (hparent.trans hlt)
  refine ⟨fun j hj hne => ?_, fun hpos j hj hchild => ?_⟩
  · rw [hrank, hrank j]
    by_cases hji : j = i
    · subst hji
      simpa [hparent.ne] using hless.le
    · by_cases hsibling : parent j = parent i
      · have hle := hup.except j hj hji
        rw [hsibling] at hle
        simpa [hji, hne, hsibling, hparent.ne] using hless.le.trans hle
      · by_cases hbelow : parent j = i
        · simpa [hji, hne, hbelow] using hup.grand hi j hj hbelow
        · simpa [hji, hne, hsibling, hbelow] using hup.except j hj hji
  · have habove := hup.except (parent i) hpos hparent.ne
    have hne : parent (parent i) ≠ i := ((parent_lt hpos).trans hparent).ne
    have hne' : parent (parent i) ≠ parent i := (parent_lt hpos).ne
    rw [hrank, hrank j, if_neg hne, if_neg hne']
    by_cases hji : j = i
    · simpa [hji] using habove
    · have hle := hup.except j hj hji
      rw [hchild] at hle
      have hjp : j ≠ parent i := fun heq => (parent_lt hj).ne (by rw [hchild, heq])
      simpa [hji, hjp] using habove.trans hle

theorem UpHeap.isHeap (hup : UpHeap rank nodes i) (hi : i < nodes.size) :
    IsHeap rank (siftUp rank nodes i) := by
  induction nodes, i using siftUp.induct rank with
  | case1 nodes i hpos hless ih =>
      have hparent := parent_lt hpos
      rw [less_iff (hparent.trans hi)] at hless
      rw [siftUp, dif_pos hpos, if_pos ((less_iff (hparent.trans hi)).mpr hless)]
      refine ih (hup.swap hpos hi hless) ?_
      rw [Array.size_swapIfInBounds]
      exact hparent.trans hi
  | case2 nodes i hpos hless =>
      rw [siftUp, dif_pos hpos, if_neg hless]
      rw [less_iff ((parent_lt hpos).trans hi), not_lt] at hless
      intro j hj
      by_cases hji : j = i
      · subst hji
        exact hless
      · exact hup.except j hj hji
  | case3 nodes i hpos =>
      rw [siftUp, dif_neg hpos]
      intro j hj
      exact hup.except j hj (by omega)

theorem isHeap_push (hheap : IsHeap rank nodes) (x : α) : IsHeap rank (push rank nodes x) := by
  have hrank : ∀ k, k ≠ nodes.size → rankAt rank (nodes.push x) k = rankAt rank nodes k := by
    intro k hk
    rw [rankAt, rankAt, Array.getElem?_push, if_neg hk]
  refine UpHeap.isHeap ⟨fun j hj hne => ?_, fun hpos j hj hchild => ?_⟩ (by simp)
  · by_cases hin : j < nodes.size
    · rw [hrank j hne, hrank _ ((parent_lt hj).trans hin).ne]
      exact hheap j hj
    · rw [rankAt_of_le (i := j) (by rw [Array.size_push]; omega)]
      exact le_top
  · have hlt := parent_lt hj
    rw [hchild] at hlt
    rw [rankAt_of_le (i := j) (by rw [Array.size_push]; omega)]
    exact le_top

/-! ### Moving down -/

/-- A heap but for position `i`, whose children are no less than the element above it. -/
structure DownHeap (rank : α → κ) (nodes : Array α) (i : Nat) : Prop where
  except : ∀ j, 0 < j → parent j ≠ i → rankAt rank nodes (parent j) ≤ rankAt rank nodes j
  grand : 0 < i → ∀ j, 0 < j → parent j = i →
    rankAt rank nodes (parent i) ≤ rankAt rank nodes j

theorem parent_eq_iff (hj : 0 < j) : parent j = i ↔ j = 2 * i + 1 ∨ j = 2 * i + 2 := by
  unfold parent
  omega

theorem smallest_le (rank : α → κ) (hi : i < nodes.size) :
    rankAt rank nodes (smallest rank nodes i) ≤ rankAt rank nodes i ∧
      ∀ j, 0 < j → parent j = i →
        rankAt rank nodes (smallest rank nodes i) ≤ rankAt rank nodes j := by
  have hchild : ∀ j, 0 < j → parent j = i → j = 2 * i + 1 ∨ j = 2 * i + 2 :=
    fun j hj => (parent_eq_iff hj).mp
  simp only [smallest]
  by_cases hleft : less rank nodes (2 * i + 1) i
  · have hl := lt_of_less rank hleft
    rw [if_pos hleft]
    rw [less_iff hi] at hleft
    by_cases hright : less rank nodes (2 * i + 2) (2 * i + 1)
    · rw [if_pos hright]
      rw [less_iff hl] at hright
      refine ⟨(hright.trans hleft).le, fun j hj hparent => ?_⟩
      rcases hchild j hj hparent with rfl | rfl
      · exact hright.le
      · exact le_rfl
    · rw [if_neg hright]
      rw [less_iff hl, not_lt] at hright
      refine ⟨hleft.le, fun j hj hparent => ?_⟩
      rcases hchild j hj hparent with rfl | rfl
      · exact le_rfl
      · exact hright
  · rw [if_neg hleft]
    rw [less_iff hi, not_lt] at hleft
    by_cases hright : less rank nodes (2 * i + 2) i
    · rw [if_pos hright]
      rw [less_iff hi] at hright
      refine ⟨hright.le, fun j hj hparent => ?_⟩
      rcases hchild j hj hparent with rfl | rfl
      · exact hright.le.trans hleft
      · exact le_rfl
    · rw [if_neg hright]
      rw [less_iff hi, not_lt] at hright
      refine ⟨le_rfl, fun j hj hparent => ?_⟩
      rcases hchild j hj hparent with rfl | rfl
      · exact hleft
      · exact hright

/-- One step down. -/
theorem DownHeap.swap (hdown : DownHeap rank nodes i) (hi : i < nodes.size)
    (hne : smallest rank nodes i ≠ i) :
    DownHeap rank (nodes.swapIfInBounds i (smallest rank nodes i)) (smallest rank nodes i) := by
  obtain ⟨hle, hchildren⟩ := smallest_le rank hi
  obtain ⟨hchild, hlt⟩ := (smallest_cases rank nodes i).resolve_left hne
  generalize smallest rank nodes i = c at hle hchildren hchild hlt hne
  have hcpos : 0 < c := by omega
  have hparent : parent c = i := (parent_eq_iff hcpos).mpr hchild
  have hrank := rankAt_swap rank hi hlt
  refine ⟨fun j hj hpj => ?_, fun _ j hj hpj => ?_⟩
  · rw [hrank, hrank j]
    by_cases hji : j = i
    · -- The element above `i` is no more than the child that moved up.
      subst hji
      have hpne : parent j ≠ j := (parent_lt hj).ne
      simpa [hpne, hpj] using hdown.grand hj c hcpos hparent
    · by_cases hbelow : parent j = i
      · by_cases hjc : j = c
        · subst hjc
          simpa [hji, hbelow] using hle
        · simpa [hji, hjc, hbelow] using hchildren j hj hbelow
      · have hjc : j ≠ c := fun heq => hbelow (heq ▸ hparent)
        simpa [hji, hjc, hbelow, hpj] using hdown.except j hj hbelow
  · have hcj := parent_lt hj
    rw [hpj] at hcj
    have hji : j ≠ i := by omega
    have hnot : parent j ≠ i := by
      rw [hpj]
      exact hne
    rw [hparent, hrank, hrank j]
    have hle' := hdown.except j hj hnot
    rw [hpj] at hle'
    simpa [hji, hcj.ne'] using hle'

theorem DownHeap.isHeap (hdown : DownHeap rank nodes i) (hi : i < nodes.size) :
    IsHeap rank (siftDown rank nodes i) := by
  induction nodes, i using siftDown.induct rank with
  | case1 nodes i heq =>
      rw [siftDown, dif_pos heq]
      intro j hj
      by_cases hparent : parent j = i
      · have hchildren := (smallest_le rank hi).2 j hj hparent
        rwa [heq, ← hparent] at hchildren
      · exact hdown.except j hj hparent
  | case2 nodes i hne ih =>
      rw [siftDown, dif_neg hne]
      refine ih (hdown.swap hi hne) ?_
      rw [Array.size_swapIfInBounds]
      exact ((smallest_cases rank nodes i).resolve_left hne).2

/-! ### The elements -/

theorem swapIfInBounds_perm (nodes : Array α) (i j : Nat) :
    (nodes.swapIfInBounds i j).toList.Perm nodes.toList := by
  unfold Array.swapIfInBounds
  split_ifs
  · exact Array.perm_iff_toList_perm.mp (Array.swap_perm _ _)
  · exact .rfl
  · exact .rfl

theorem siftUp_perm (nodes : Array α) (i : Nat) :
    (siftUp rank nodes i).toList.Perm nodes.toList := by
  induction nodes, i using siftUp.induct rank with
  | case1 nodes i hpos hless ih =>
      rw [siftUp, dif_pos hpos, if_pos hless]
      exact ih.trans (swapIfInBounds_perm nodes i _)
  | case2 nodes i hpos hless => rw [siftUp, dif_pos hpos, if_neg hless]
  | case3 nodes i hpos => rw [siftUp, dif_neg hpos]

theorem siftDown_perm (nodes : Array α) (i : Nat) :
    (siftDown rank nodes i).toList.Perm nodes.toList := by
  induction nodes, i using siftDown.induct rank with
  | case1 nodes i heq => rw [siftDown, dif_pos heq]
  | case2 nodes i hne ih =>
      rw [siftDown, dif_neg hne]
      exact ih.trans (swapIfInBounds_perm nodes i _)

theorem push_perm (rank : α → κ) (nodes : Array α) (x : α) :
    (push rank nodes x).toList.Perm (x :: nodes.toList) := by
  refine (siftUp_perm _ _).trans ?_
  rw [Array.toList_push]
  exact List.perm_append_singleton x nodes.toList

/-- The last element put in the place of the root. -/
theorem downHeap_replace_root {last : α} (hheap : IsHeap rank (nodes.push last)) (x : α) :
    DownHeap rank (nodes.setIfInBounds 0 x) 0 := by
  have hrank : ∀ k, 0 < k → k < nodes.size →
      rankAt rank (nodes.setIfInBounds 0 x) k = rankAt rank (nodes.push last) k := by
    intro k hpos hk
    have hne : ¬ 0 = k := hpos.ne
    rw [rankAt, rankAt, Array.getElem?_setIfInBounds, if_neg hne, Array.getElem?_push,
      if_neg hk.ne]
  refine ⟨fun j hj hparent => ?_, fun hpos => absurd hpos (lt_irrefl 0)⟩
  by_cases hin : j < nodes.size
  · rw [hrank j hj hin, hrank _ (Nat.pos_of_ne_zero hparent) ((parent_lt hj).trans hin)]
    exact hheap j hj
  · rw [rankAt_of_le (i := j) (by rw [Array.size_setIfInBounds]; omega)]
    exact le_top

theorem size_push (nodes : Array α) (x : α) : (push rank nodes x).size = nodes.size + 1 := by
  simpa using (push_perm rank nodes x).length_eq

theorem pop_perm {top : α} {rest : Array α} (hpop : pop rank nodes = some (top, rest)) :
    nodes.toList.Perm (top :: rest.toList) := by
  unfold pop at hpop
  split at hpop
  · next top' last htop hlast =>
      obtain ⟨front, rfl⟩ := Array.back?_eq_some_iff.mp hlast
      rw [Array.pop_push] at hpop
      obtain ⟨front⟩ := front
      cases front with
      | nil =>
          obtain ⟨rfl, rfl⟩ := Prod.mk.inj (Option.some.inj hpop)
          obtain rfl : last = top' := by simpa using htop
          exact .rfl
      | cons first tail =>
          rw [if_neg (by simp)] at hpop
          obtain ⟨rfl, rfl⟩ := Prod.mk.inj (Option.some.inj hpop)
          obtain rfl : first = top' := by simpa using htop
          refine .trans ?_ ((siftDown_perm _ _).symm.cons _)
          simp
  · cases hpop

/-- **`pop` takes a least element** of a heap, and leaves a heap. -/
theorem pop_spec (hheap : IsHeap rank nodes) {top : α} {rest : Array α}
    (hpop : pop rank nodes = some (top, rest)) :
    IsHeap rank rest ∧ ∀ x ∈ nodes.toList, rank top ≤ rank x := by
  unfold pop at hpop
  split at hpop
  · next top' last htop hlast =>
      have hmin : ∀ x ∈ nodes.toList, rank top' ≤ rank x := by
        intro x hx
        obtain ⟨i, hi, hx⟩ := List.getElem_of_mem hx
        have hle := hheap.root_le i
        have hget : nodes[i]? = some x := by
          rw [Array.getElem?_eq_some_iff]
          exact ⟨hi, hx⟩
        rwa [rankAt, htop, rankAt, hget, WithTop.coe_le_coe] at hle
      obtain ⟨front, rfl⟩ := Array.back?_eq_some_iff.mp hlast
      rw [Array.pop_push] at hpop
      split at hpop
      · next hempty =>
          obtain rfl : front = #[] := Array.size_eq_zero_iff.mp hempty
          obtain ⟨rfl, rfl⟩ := Prod.mk.inj (Option.some.inj hpop)
          exact ⟨fun i _ => by rw [rankAt_of_le (i := i) (Nat.zero_le _)]; exact le_top, hmin⟩
      · next hsize =>
          obtain ⟨rfl, rfl⟩ := Prod.mk.inj (Option.some.inj hpop)
          have hpos : 0 < front.size := Nat.pos_of_ne_zero hsize
          exact ⟨(downHeap_replace_root hheap last).isHeap (by simpa using hpos), hmin⟩
  · cases hpop

theorem pop_eq_none (hpop : pop rank nodes = none) : nodes = #[] := by
  unfold pop at hpop
  split at hpop
  · split at hpop <;> cases hpop
  · next hnone =>
      by_contra hne
      have hpos : 0 < nodes.size := Array.size_pos_iff.mpr hne
      obtain ⟨last, hlast⟩ := Option.isSome_iff_exists.mp (Array.back?_isSome.mpr hne)
      exact hnone _ _ (Array.getElem?_eq_getElem hpos) hlast

end MinHeap

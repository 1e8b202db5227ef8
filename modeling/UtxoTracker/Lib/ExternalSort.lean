import Mathlib.Algebra.Ring.Nat
import Mathlib.Data.List.Sort
import Mathlib.Data.Prod.Lex
import UtxoTracker.Lib.Chunks
import UtxoTracker.Lib.MinHeap
/-!
# Sorting in bounded memory

Runs of bounded length are sorted one by one and merged through a heap that holds the front record
of each. The result is the input in key order, however long the runs are.
-/

namespace ExternalSort

open Chunks MinHeap

variable {α κ : Type*} [LinearOrder κ] (key : α → κ)

/-! ### Sorted runs -/

/-- One run, sorted in memory. -/
def sortRun (records : List α) : List α := records.insertionSort fun a b => key a ≤ key b

/-- The runs of `perRun` records each, in input order. -/
def sortedRuns (perRun : Nat) (records : List α) : List (List α) :=
  (chunks perRun records).map (sortRun key)

/-! ### Merging -/

/-- A heap node is ranked by its key, then by its run. -/
def nodeRank (node : α × Nat) : κ ×ₗ Nat := toLex (key node.1, node.2)

/-- The heap with the front record of each run, the runs counted from `runIdx`. -/
def primeHeap : List (List α) → Nat → Array (α × Nat) → Array (α × Nat)
  | [], _, nodes => nodes
  | run :: runs, runIdx, nodes =>
      primeHeap runs (runIdx + 1)
        (match run with
        | [] => nodes
        | record :: _ => push (nodeRank key) nodes (record, runIdx))

theorem sum_length_set {runs : List (List α)} {i : Nat} {next : α} {rest : List α}
    (hrun : runs[i]? = some (next :: rest)) :
    ((runs.set i rest).map List.length).sum + 1 = (runs.map List.length).sum := by
  induction runs generalizing i with
  | nil => cases hrun
  | cons run runs ih =>
      cases i with
      | zero =>
          obtain rfl : run = next :: rest := by simpa using hrun
          simp
          omega
      | succ i =>
          have := ih (i := i) (by simpa using hrun)
          simp only [List.set_cons_succ, List.map_cons, List.sum_cons]
          omega

/-- Emit the least front record, and read the next one of its run. -/
def mergeLoop (nodes : Array (α × Nat)) (runs : List (List α)) : List α :=
  match _hpop : pop (nodeRank key) nodes with
  | none => []
  | some ((record, runIdx), nodes') =>
      match _hrun : runs[runIdx]? with
      | some (next :: rest) =>
          record :: mergeLoop (push (nodeRank key) nodes' (next, runIdx)) (runs.set runIdx rest)
      | _ => record :: mergeLoop nodes' runs
termination_by nodes.size + (runs.map List.length).sum
decreasing_by
  · have hsize := (pop_perm ‹_›).length_eq
    have hsum := sum_length_set ‹_›
    rw [size_push]
    simp only [Array.length_toList, List.length_cons] at hsize
    omega
  · have hsize := (pop_perm ‹_›).length_eq
    simp only [Array.length_toList, List.length_cons] at hsize
    omega

def mergeRuns (runs : List (List α)) : List α :=
  mergeLoop key (primeHeap key runs 0 #[]) (runs.map List.tail)

/-- `externalSort`: the input in key order. -/
def externalSort (perRun : Nat) (records : List α) : List α :=
  mergeRuns key (sortedRuns key perRun records)

/-! ### The runs hold the input -/

variable {key}

theorem sortRun_perm (records : List α) : (sortRun key records).Perm records :=
  List.perm_insertionSort _ _

theorem sortRun_sorted (records : List α) :
    (sortRun key records).Pairwise fun a b => key a ≤ key b := by
  have htotal : Std.Total fun a b : α => key a ≤ key b := ⟨fun a b => le_total (key a) (key b)⟩
  have htrans : IsTrans α fun a b => key a ≤ key b := ⟨fun _ _ _ => le_trans⟩
  exact List.pairwise_insertionSort _ _

/-- A run keeps the order of the records that share a key. -/
theorem sortRun_stable (records : List α) (k : κ) :
    (sortRun key records).filter (fun x => decide (key x = k)) =
      records.filter fun x => decide (key x = k) := by
  have htotal : Std.Total fun a b : α => key a ≤ key b := ⟨fun a b => le_total (key a) (key b)⟩
  have htrans : IsTrans α fun a b => key a ≤ key b := ⟨fun _ _ _ => le_trans⟩
  have hequal : (records.filter fun x => decide (key x = k)).Pairwise fun a b => key a ≤ key b := by
    rw [List.pairwise_iff_forall_sublist]
    intro a b hsub
    have ha := List.of_mem_filter (hsub.subset (List.mem_cons_self (a := a)))
    have hb := List.of_mem_filter (hsub.subset (List.mem_cons_of_mem a (List.mem_cons_self (a := b))))
    simp only [decide_eq_true_eq] at ha hb
    exact (ha.trans hb.symm).le
  have hsub : (records.filter fun x => decide (key x = k)).Sublist
      ((sortRun key records).filter fun x => decide (key x = k)) := by
    have := (List.sublist_insertionSort hequal List.filter_sublist).filter
      fun x => decide (key x = k)
    rwa [List.filter_filter, List.filter_congr (q := fun x => decide (key x = k))] at this
    intro x _
    exact Bool.and_self _
  exact (hsub.eq_of_length (((sortRun_perm records).filter _).length_eq.symm)).symm

theorem sortedRuns_stable (perRun : Nat) (records : List α) (k : κ) :
    (sortedRuns key perRun records).flatten.filter (fun x => decide (key x = k)) =
      records.filter fun x => decide (key x = k) := by
  have hruns : ∀ runs : List (List α),
      (runs.map (sortRun key)).flatten.filter (fun x => decide (key x = k)) =
        runs.flatten.filter fun x => decide (key x = k) := by
    intro runs
    induction runs with
    | nil => rfl
    | cons run runs ih =>
        rw [List.map_cons, List.flatten_cons, List.flatten_cons, List.filter_append,
          List.filter_append, sortRun_stable, ih]
  rw [sortedRuns, hruns, flatten_chunks]

theorem sortedRuns_perm (perRun : Nat) (records : List α) :
    (sortedRuns key perRun records).flatten.Perm records := by
  have hruns : ∀ runs : List (List α), (runs.map (sortRun key)).flatten.Perm runs.flatten := by
    intro runs
    induction runs with
    | nil => exact .rfl
    | cons run runs ih =>
        rw [List.map_cons, List.flatten_cons, List.flatten_cons]
        exact (sortRun_perm run).append ih
  refine (hruns _).trans ?_
  rw [flatten_chunks]

theorem sortedRuns_sorted (key : α → κ) (perRun : Nat) (records : List α) :
    ∀ run ∈ sortedRuns key perRun records, run.Pairwise fun a b => key a ≤ key b := by
  intro run hmem
  obtain ⟨chunk, -, rfl⟩ := List.mem_map.mp hmem
  exact sortRun_sorted chunk

/-! ### The merge -/

/-- Every unread record of a run is at or above a node of that run. -/
structure MergeInv (key : α → κ) (nodes : Array (α × Nat)) (runs : List (List α)) : Prop where
  heap : IsHeap (nodeRank key) nodes
  sorted : ∀ run ∈ runs, run.Pairwise fun a b => key a ≤ key b
  front : ∀ i run, runs[i]? = some run → ∀ x ∈ run,
    ∃ node ∈ nodes.toList, node.2 = i ∧ key node.1 ≤ key x

theorem key_le_of_rank_le {a b : α × Nat} (hle : nodeRank key a ≤ nodeRank key b) :
    key a.1 ≤ key b.1 := by
  rcases Prod.Lex.toLex_le_toLex.mp hle with hlt | ⟨heq, -⟩
  · exact hlt.le
  · exact heq.le

theorem MergeInv.least {nodes nodes' : Array (α × Nat)} {runs : List (List α)} {top : α × Nat}
    (hinv : MergeInv key nodes runs) (hpop : pop (nodeRank key) nodes = some (top, nodes')) :
    (∀ node ∈ nodes.toList, key top.1 ≤ key node.1) ∧ ∀ x ∈ runs.flatten, key top.1 ≤ key x := by
  have hnodes : ∀ node ∈ nodes.toList, key top.1 ≤ key node.1 :=
    fun node hmem => key_le_of_rank_le ((pop_spec hinv.heap hpop).2 node hmem)
  refine ⟨hnodes, fun x hx => ?_⟩
  obtain ⟨run, hrun, hmem⟩ := List.mem_flatten.mp hx
  obtain ⟨i, hi, rfl⟩ := List.getElem_of_mem hrun
  obtain ⟨node, hnode, -, hle⟩ := hinv.front i _ (List.getElem?_eq_getElem hi) x hmem
  exact (hnodes node hnode).trans hle

/-- A node of another run is still there after a `pop`. -/
theorem mem_of_pop {nodes nodes' : Array (α × Nat)} {top node : α × Nat}
    (hpop : pop (nodeRank key) nodes = some (top, nodes')) (hmem : node ∈ nodes.toList)
    (hne : node.2 ≠ top.2) : node ∈ nodes'.toList := by
  have hin := (pop_perm hpop).mem_iff.mp hmem
  exact (List.mem_cons.mp hin).resolve_left fun heq => hne (heq ▸ rfl)

theorem MergeInv.next {nodes nodes' : Array (α × Nat)} {runs : List (List α)} {record next : α}
    {runIdx : Nat} {rest : List α} (hinv : MergeInv key nodes runs)
    (hpop : pop (nodeRank key) nodes = some ((record, runIdx), nodes'))
    (hrun : runs[runIdx]? = some (next :: rest)) :
    MergeInv key (push (nodeRank key) nodes' (next, runIdx)) (runs.set runIdx rest) where
  heap := isHeap_push (pop_spec hinv.heap hpop).1 _
  sorted := by
    intro run hmem
    rcases List.mem_or_eq_of_mem_set hmem with hin | rfl
    · exact hinv.sorted run hin
    · exact (hinv.sorted _ (List.mem_of_getElem? hrun)).of_cons
  front := by
    intro i run hget x hx
    have hpush := push_perm (nodeRank key) nodes' (next, runIdx)
    by_cases hi : runIdx = i
    · subst hi
      rw [List.getElem?_set_self (List.getElem?_eq_some_iff.mp hrun).1, Option.some.injEq] at hget
      subst hget
      have hsorted := hinv.sorted _ (List.mem_of_getElem? hrun)
      exact ⟨_, hpush.mem_iff.mpr List.mem_cons_self, rfl, List.rel_of_pairwise_cons hsorted hx⟩
    · rw [List.getElem?_set_ne hi] at hget
      obtain ⟨node, hnode, hidx, hle⟩ := hinv.front i run hget x hx
      refine ⟨node, hpush.mem_iff.mpr (List.mem_cons_of_mem _ ?_), hidx, hle⟩
      exact mem_of_pop hpop hnode (by rw [hidx]; exact fun heq => hi heq.symm)

theorem MergeInv.exhausted {nodes nodes' : Array (α × Nat)} {runs : List (List α)} {record : α}
    {runIdx : Nat} (hinv : MergeInv key nodes runs)
    (hpop : pop (nodeRank key) nodes = some ((record, runIdx), nodes'))
    (hrun : ∀ next rest, runs[runIdx]? ≠ some (next :: rest)) :
    MergeInv key nodes' runs where
  heap := (pop_spec hinv.heap hpop).1
  sorted := hinv.sorted
  front := by
    intro i run hget x hx
    obtain ⟨node, hnode, hidx, hle⟩ := hinv.front i run hget x hx
    refine ⟨node, mem_of_pop hpop hnode ?_, hidx, hle⟩
    rintro heq
    obtain rfl : runIdx = i := heq.symm.trans hidx
    cases run with
    | nil => cases hx
    | cons y ys => exact hrun y ys hget

theorem flatten_set_perm {runs : List (List α)} {i : Nat} {next : α} {rest : List α}
    (hrun : runs[i]? = some (next :: rest)) :
    runs.flatten.Perm (next :: (runs.set i rest).flatten) := by
  induction runs generalizing i with
  | nil => cases hrun
  | cons run runs ih =>
      cases i with
      | zero =>
          obtain rfl : run = next :: rest := by simpa using hrun
          simp
      | succ i =>
          rw [List.set_cons_succ, List.flatten_cons, List.flatten_cons]
          exact ((ih (by simpa using hrun)).append_left run).trans List.perm_middle

theorem mergeLoop_none {nodes : Array (α × Nat)} {runs : List (List α)}
    (hpop : pop (nodeRank key) nodes = none) : mergeLoop key nodes runs = [] := by
  rw [mergeLoop]
  split
  · rfl
  · simp_all

theorem mergeLoop_next {nodes nodes' : Array (α × Nat)} {runs : List (List α)} {record next : α}
    {runIdx : Nat} {rest : List α}
    (hpop : pop (nodeRank key) nodes = some ((record, runIdx), nodes'))
    (hrun : runs[runIdx]? = some (next :: rest)) :
    mergeLoop key nodes runs = record ::
      mergeLoop key (push (nodeRank key) nodes' (next, runIdx)) (runs.set runIdx rest) := by
  rw [mergeLoop]
  split
  · simp_all
  · next record' runIdx' nodes'' hpop' =>
      rw [hpop] at hpop'
      simp only [Option.some.injEq, Prod.mk.injEq] at hpop'
      obtain ⟨⟨rfl, rfl⟩, rfl⟩ := hpop'
      split
      · next hrun' =>
          rw [hrun] at hrun'
          simp only [Option.some.injEq, List.cons.injEq] at hrun'
          obtain ⟨rfl, rfl⟩ := hrun'
          rfl
      · next hnot => exact absurd hrun (hnot next rest)

theorem mergeLoop_exhausted {nodes nodes' : Array (α × Nat)} {runs : List (List α)} {record : α}
    {runIdx : Nat} (hpop : pop (nodeRank key) nodes = some ((record, runIdx), nodes'))
    (hrun : ∀ next rest, runs[runIdx]? ≠ some (next :: rest)) :
    mergeLoop key nodes runs = record :: mergeLoop key nodes' runs := by
  rw [mergeLoop]
  split
  · simp_all
  · next record' runIdx' nodes'' hpop' =>
      rw [hpop] at hpop'
      simp only [Option.some.injEq, Prod.mk.injEq] at hpop'
      obtain ⟨⟨rfl, rfl⟩, rfl⟩ := hpop'
      split
      · next hrun' => exact absurd hrun' (hrun _ _)
      · rfl

/-- **The merge loop** emits every record, in key order. -/
theorem mergeLoop_spec (nodes : Array (α × Nat)) (runs : List (List α))
    (hinv : MergeInv key nodes runs) :
    (mergeLoop key nodes runs).Perm (nodes.toList.map Prod.fst ++ runs.flatten) ∧
      (mergeLoop key nodes runs).Pairwise fun a b => key a ≤ key b := by
  -- What follows the least record is at or above it.
  have hcons : ∀ {nodes nodes' : Array (α × Nat)} {runs : List (List α)} {record : α}
      {runIdx : Nat} {tail : List α}, MergeInv key nodes runs →
      pop (nodeRank key) nodes = some ((record, runIdx), nodes') →
      tail.Perm (nodes'.toList.map Prod.fst ++ runs.flatten) →
      tail.Pairwise (fun a b => key a ≤ key b) →
      (record :: tail).Perm (nodes.toList.map Prod.fst ++ runs.flatten) ∧
        (record :: tail).Pairwise fun a b => key a ≤ key b := by
    intro nodes nodes' runs record runIdx tail hinv hpop hperm hsorted
    obtain ⟨hnodes, hruns⟩ := hinv.least hpop
    have hall := pop_perm hpop
    refine ⟨(hperm.cons record).trans ?_, List.pairwise_cons.mpr ⟨fun x hx => ?_, hsorted⟩⟩
    · rw [← List.cons_append]
      exact ((hall.map Prod.fst).append_right _).symm
    · rcases List.mem_append.mp (hperm.mem_iff.mp hx) with hin | hin
      · obtain ⟨node, hnode, rfl⟩ := List.mem_map.mp hin
        exact hnodes node (hall.mem_iff.mpr (List.mem_cons_of_mem _ hnode))
      · exact hruns x hin
  induction nodes, runs using mergeLoop.induct key with
  | case1 nodes runs hpop =>
      have hempty : nodes = #[] := pop_eq_none hpop
      have hruns : runs.flatten = [] := by
        rw [List.flatten_eq_nil_iff]
        intro run hmem
        obtain ⟨i, hi, rfl⟩ := List.getElem_of_mem hmem
        refine List.eq_nil_iff_forall_not_mem.mpr fun x hx => ?_
        obtain ⟨node, hnode, -⟩ := hinv.front i _ (List.getElem?_eq_getElem hi) x hx
        simp [hempty] at hnode
      rw [mergeLoop_none hpop, hruns, hempty]
      exact ⟨.rfl, .nil⟩
  | case2 nodes runs record runIdx nodes' hpop next rest hrun ih =>
      obtain ⟨hperm, hsorted⟩ := ih (hinv.next hpop hrun)
      rw [mergeLoop_next hpop hrun]
      refine hcons hinv hpop (hperm.trans ?_) hsorted
      refine (((push_perm _ _ _).map Prod.fst).append_right _).trans ?_
      exact List.perm_middle.symm.trans ((flatten_set_perm hrun).symm.append_left _)
  | case3 nodes runs record runIdx nodes' hpop hrun ih =>
      obtain ⟨hperm, hsorted⟩ := ih (hinv.exhausted hpop hrun)
      rw [mergeLoop_exhausted hpop hrun]
      exact hcons hinv hpop hperm hsorted

/-- The heap before the first record is emitted. -/
theorem primeHeap_spec (key : α → κ) (runs : List (List α)) (runIdx : Nat) (nodes : Array (α × Nat))
    (hheap : IsHeap (nodeRank key) nodes) :
    IsHeap (nodeRank key) (primeHeap key runs runIdx nodes) ∧
      ((primeHeap key runs runIdx nodes).toList.map Prod.fst ++ (runs.map List.tail).flatten).Perm
        (nodes.toList.map Prod.fst ++ runs.flatten) ∧
      (∀ node ∈ nodes.toList, node ∈ (primeHeap key runs runIdx nodes).toList) ∧
      ∀ i record rest, runs[i]? = some (record :: rest) →
        (record, runIdx + i) ∈ (primeHeap key runs runIdx nodes).toList := by
  induction runs generalizing runIdx nodes with
  | nil => exact ⟨hheap, .rfl, fun _ h => h, by simp⟩
  | cons run runs ih =>
      cases run with
      | nil =>
          obtain ⟨hheap', hperm, hkeep, hfront⟩ := ih (runIdx + 1) nodes hheap
          refine ⟨hheap', by simpa [primeHeap] using hperm, hkeep, fun i record rest hrun => ?_⟩
          cases i with
          | zero => simp at hrun
          | succ i =>
              have := hfront i record rest (by simpa using hrun)
              rwa [Nat.add_assoc, Nat.add_comm 1 i] at this
      | cons first tail =>
          have hpush := push_perm (nodeRank key) nodes (first, runIdx)
          obtain ⟨hheap', hperm, hkeep, hfront⟩ :=
            ih (runIdx + 1) (push (nodeRank key) nodes (first, runIdx)) (isHeap_push hheap _)
          refine ⟨hheap', ?_, fun node hmem =>
            hkeep node (hpush.mem_iff.mpr (List.mem_cons_of_mem _ hmem)),
            fun i record rest hrun => ?_⟩
          · rw [List.map_cons, List.tail_cons, List.flatten_cons, List.flatten_cons]
            refine (List.perm_append_comm_assoc _ _ _).trans ?_
            refine ((hperm.trans ((hpush.map Prod.fst).append_right _)).append_left tail).trans ?_
            exact (List.perm_append_comm_assoc _ _ _).trans List.perm_middle.symm
          · cases i with
            | zero =>
                obtain ⟨rfl, rfl⟩ : first = record ∧ tail = rest := by simpa using hrun
                exact hkeep _ (hpush.mem_iff.mpr List.mem_cons_self)
            | succ i =>
                have := hfront i record rest (by simpa using hrun)
                rwa [Nat.add_assoc, Nat.add_comm 1 i] at this

/-- **The merge of sorted runs** holds their records, in key order. -/
theorem mergeRuns_spec {runs : List (List α)}
    (hsorted : ∀ run ∈ runs, run.Pairwise fun a b => key a ≤ key b) :
    (mergeRuns key runs).Perm runs.flatten ∧
      (mergeRuns key runs).Pairwise fun a b => key a ≤ key b := by
  have hempty : IsHeap (nodeRank key) (#[] : Array (α × Nat)) :=
    fun i _ => by rw [rankAt_of_le (i := i) (Nat.zero_le _)]; exact le_top
  obtain ⟨hheap, hperm, -, hfront⟩ := primeHeap_spec key runs 0 #[] hempty
  have hinv : MergeInv key (primeHeap key runs 0 #[]) (runs.map List.tail) := by
    refine ⟨hheap, fun run hmem => ?_, fun i run hget x hx => ?_⟩
    · obtain ⟨whole, hin, rfl⟩ := List.mem_map.mp hmem
      exact (hsorted whole hin).tail
    · rw [List.getElem?_map, Option.map_eq_some_iff] at hget
      obtain ⟨whole, hget, rfl⟩ := hget
      cases whole with
      | nil => cases hx
      | cons first tail =>
          have hmem := hfront i first tail hget
          rw [Nat.zero_add] at hmem
          exact ⟨_, hmem, rfl,
            List.rel_of_pairwise_cons (hsorted _ (List.mem_of_getElem? hget)) hx⟩
  obtain ⟨hmerged, hpairwise⟩ := mergeLoop_spec _ _ hinv
  exact ⟨hmerged.trans (by simpa using hperm), hpairwise⟩

/-- **The external sort** holds its input, in key order. -/
theorem externalSort_spec (perRun : Nat) (records : List α) :
    (externalSort key perRun records).Perm records ∧
      (externalSort key perRun records).Pairwise fun a b => key a ≤ key b := by
  obtain ⟨hperm, hsorted⟩ := mergeRuns_spec (sortedRuns_sorted key perRun records)
  exact ⟨hperm.trans (sortedRuns_perm perRun records), hsorted⟩

/-! ### Stability -/

/-- The front record of every run that has one, with the run it is from. -/
def heads : Nat → List (List α) → List (α × Nat)
  | _, [] => []
  | runIdx, run :: runs => (run.head?.map (·, runIdx)).toList ++ heads (runIdx + 1) runs

theorem heads_set {fronts : List (List α)} {i : Nat} {run : List α} (runIdx : Nat)
    (hrun : fronts[i]? = some run) :
    (heads runIdx fronts).Perm
      ((run.head?.map (·, runIdx + i)).toList ++ heads runIdx (fronts.set i [])) := by
  induction fronts generalizing i runIdx with
  | nil => cases hrun
  | cons first fronts ih =>
      cases i with
      | zero =>
          obtain rfl : first = run := by simpa using hrun
          simp [heads]
      | succ i =>
          have hrest := ih (runIdx + 1) (i := i) (by simpa using hrun)
          rw [Nat.add_assoc, Nat.add_comm 1 i] at hrest
          rw [List.set_cons_succ, heads, heads]
          exact (hrest.append_left _).trans (List.perm_append_comm_assoc _ _ _)

theorem mem_heads {fronts : List (List α)} {runIdx : Nat} {node : α × Nat} :
    node ∈ heads runIdx fronts ↔
      ∃ i tail, fronts[i]? = some (node.1 :: tail) ∧ node.2 = runIdx + i := by
  induction fronts generalizing runIdx with
  | nil => simp [heads]
  | cons first fronts ih =>
      rw [heads, List.mem_append, ih]
      refine ⟨?_, ?_⟩
      · rintro (hmem | ⟨i, tail, hget, hidx⟩)
        · cases first with
          | nil => cases hmem
          | cons x tail =>
              obtain rfl : node = (x, runIdx) := by simpa using hmem
              exact ⟨0, tail, rfl, rfl⟩
        · exact ⟨i + 1, tail, by simpa using hget, by omega⟩
      · rintro ⟨i, tail, hget, hidx⟩
        cases i with
        | zero =>
            obtain rfl : first = node.1 :: tail := by simpa using hget
            obtain ⟨x, idx⟩ := node
            obtain rfl : idx = runIdx := hidx
            left
            simp
        | succ i => exact .inr ⟨i, tail, by simpa using hget, by omega⟩

theorem primeHeap_heads (runs : List (List α)) (runIdx : Nat) (nodes : Array (α × Nat)) :
    (primeHeap key runs runIdx nodes).toList.Perm (nodes.toList ++ heads runIdx runs) := by
  induction runs generalizing runIdx nodes with
  | nil => simp [primeHeap, heads]
  | cons run runs ih =>
      cases run with
      | nil => simpa [primeHeap, heads] using ih (runIdx + 1) nodes
      | cons first tail =>
          have hpush := push_perm (nodeRank key) nodes (first, runIdx)
          refine (ih (runIdx + 1) _).trans ((hpush.append_right _).trans ?_)
          exact List.perm_middle.symm

/-- The heap holds the front record of every run, and the runs what is behind it. -/
structure FrontInv (key : α → κ) (nodes : Array (α × Nat)) (runs fronts : List (List α)) : Prop where
  heap : IsHeap (nodeRank key) nodes
  nodes_perm : nodes.toList.Perm (heads 0 fronts)
  runs_eq : runs = fronts.map List.tail
  sorted : ∀ front ∈ fronts, front.Pairwise fun a b => key a ≤ key b

theorem FrontInv.mem {nodes nodes' : Array (α × Nat)} {runs fronts : List (List α)} {record : α}
    {runIdx : Nat} (hinv : FrontInv key nodes runs fronts)
    (hpop : pop (nodeRank key) nodes = some ((record, runIdx), nodes')) :
    ∃ tail, fronts[runIdx]? = some (record :: tail) ∧ runs[runIdx]? = some tail := by
  have hmem := hinv.nodes_perm.mem_iff.mp ((pop_perm hpop).mem_iff.mpr List.mem_cons_self)
  obtain ⟨i, tail, hget, hidx⟩ := mem_heads.mp hmem
  obtain rfl : runIdx = i := by simpa using hidx
  refine ⟨tail, hget, ?_⟩
  rw [hinv.runs_eq, List.getElem?_map, hget]
  rfl

/-- Earlier runs hold larger keys only than the least front record. -/
theorem FrontInv.earlier {nodes nodes' : Array (α × Nat)} {runs fronts : List (List α)} {record : α}
    {runIdx : Nat} (hinv : FrontInv key nodes runs fronts)
    (hpop : pop (nodeRank key) nodes = some ((record, runIdx), nodes')) {i : Nat} {front : List α}
    (hfront : fronts[i]? = some front) (hbefore : i < runIdx) : ∀ x ∈ front, key record < key x := by
  intro x hx
  cases front with
  | nil => cases hx
  | cons head tail =>
      have hnode : (head, i) ∈ nodes.toList :=
        hinv.nodes_perm.mem_iff.mpr (mem_heads.mpr ⟨i, tail, hfront, (Nat.zero_add i).symm⟩)
      have hhead : key record < key head := by
        rcases Prod.Lex.toLex_le_toLex.mp ((pop_spec hinv.heap hpop).2 _ hnode) with hlt | ⟨-, hle⟩
        · exact hlt
        · exact absurd hle (by dsimp only; omega)
      rcases List.mem_cons.mp hx with rfl | hin
      · exact hhead
      · exact hhead.trans_le
          (List.rel_of_pairwise_cons (hinv.sorted _ (List.mem_of_getElem? hfront)) hin)

/-- One round of the merge takes the least front record off its run. -/
theorem FrontInv.step {nodes nodes' nodes'' : Array (α × Nat)} {runs runs' fronts : List (List α)}
    {record : α} {runIdx : Nat} {tail : List α} (hinv : FrontInv key nodes runs fronts)
    (hpop : pop (nodeRank key) nodes = some ((record, runIdx), nodes'))
    (hfront : fronts[runIdx]? = some (record :: tail)) (hheap : IsHeap (nodeRank key) nodes'')
    (hnodes : nodes''.toList.Perm ((tail.head?.map (·, runIdx)).toList ++ nodes'.toList))
    (hruns : runs' = (fronts.set runIdx tail).map List.tail) :
    FrontInv key nodes'' runs' (fronts.set runIdx tail) where
  heap := hheap
  nodes_perm := by
    have hlt := (List.getElem?_eq_some_iff.mp hfront).1
    have hbefore := heads_set 0 hfront
    rw [Nat.zero_add, List.head?_cons] at hbefore
    have hset := heads_set 0 (List.getElem?_set_self (a := tail) hlt)
    rw [Nat.zero_add, List.set_set] at hset
    have hrest : nodes'.toList.Perm (heads 0 (fronts.set runIdx [])) :=
      ((pop_perm hpop).symm.trans (hinv.nodes_perm.trans hbefore)).cons_inv
    exact hnodes.trans ((hrest.append_left _).trans hset.symm)
  runs_eq := hruns
  sorted := by
    intro front hmem
    rcases List.mem_or_eq_of_mem_set hmem with hin | rfl
    · exact hinv.sorted front hin
    · exact (hinv.sorted _ (List.mem_of_getElem? hfront)).of_cons

theorem FrontInv.filter {nodes nodes' : Array (α × Nat)} {runs fronts : List (List α)} {record : α}
    {runIdx : Nat} {tail : List α} (hinv : FrontInv key nodes runs fronts)
    (hpop : pop (nodeRank key) nodes = some ((record, runIdx), nodes'))
    (hfront : fronts[runIdx]? = some (record :: tail)) (k : κ) :
    fronts.flatten.filter (fun x => decide (key x = k)) =
      (record :: (fronts.set runIdx tail).flatten).filter fun x => decide (key x = k) := by
  obtain ⟨hlt, hget⟩ := List.getElem?_eq_some_iff.mp hfront
  obtain ⟨before, after, hsplit, hlength, hset⟩ := List.exists_of_set hlt
  rw [hget] at hsplit
  rw [hset, hsplit]
  by_cases hk : key record = k
  · have hnone : before.flatten.filter (fun x => decide (key x = k)) = [] := by
      rw [List.filter_eq_nil_iff]
      intro x hx
      obtain ⟨front, hmem, hin⟩ := List.mem_flatten.mp hx
      obtain ⟨i, hi, rfl⟩ := List.getElem_of_mem hmem
      have hearlier := hinv.earlier hpop (i := i)
        (by rw [hsplit, List.getElem?_append_left hi, List.getElem?_eq_getElem hi])
        (by omega) x hin
      rw [hk] at hearlier
      simpa using hearlier.ne'
    simp [List.filter_append, hnone, hk]
  · simp [List.filter_append, hk]

/-- **The merge loop** keeps the order of the records that share a key. -/
theorem mergeLoop_stable (nodes : Array (α × Nat)) (runs fronts : List (List α))
    (hinv : FrontInv key nodes runs fronts) (k : κ) :
    (mergeLoop key nodes runs).filter (fun x => decide (key x = k)) =
      fronts.flatten.filter fun x => decide (key x = k) := by
  induction nodes, runs using mergeLoop.induct key generalizing fronts with
  | case1 nodes runs hpop =>
      have hempty : nodes = #[] := pop_eq_none hpop
      have hnone : fronts.flatten = [] := by
        rw [List.flatten_eq_nil_iff]
        intro front hmem
        obtain ⟨i, hi, rfl⟩ := List.getElem_of_mem hmem
        cases hfront : fronts[i] with
        | nil => rfl
        | cons head tail =>
            have hnode := hinv.nodes_perm.mem_iff.mpr
              (mem_heads.mpr ⟨i, tail, (List.getElem?_eq_getElem hi).trans (by rw [hfront]),
                (Nat.zero_add i).symm⟩ : (head, i) ∈ heads 0 fronts)
            simp [hempty] at hnode
      rw [mergeLoop_none hpop, hnone]
  | case2 nodes runs record runIdx nodes' hpop next rest hrun ih =>
      obtain ⟨tail, hfront, htail⟩ := hinv.mem hpop
      obtain rfl : next :: rest = tail := by simpa [hrun] using htail
      have hruns : runs.set runIdx rest = (fronts.set runIdx (next :: rest)).map List.tail := by
        rw [hinv.runs_eq, List.map_set, List.tail_cons]
      have hstep := hinv.step hpop hfront (isHeap_push (pop_spec hinv.heap hpop).1 (next, runIdx))
        (push_perm _ _ _) hruns
      rw [mergeLoop_next hpop hrun, hinv.filter hpop hfront k, List.filter_cons, List.filter_cons,
        ih _ hstep]
  | case3 nodes runs record runIdx nodes' hpop hrun ih =>
      obtain ⟨tail, hfront, htail⟩ := hinv.mem hpop
      obtain rfl : tail = [] := by
        cases tail with
        | nil => rfl
        | cons next rest => exact absurd htail (hrun next rest)
      have hsame : (fronts.set runIdx []).map List.tail = runs := by
        rw [List.map_set, List.tail_nil, ← hinv.runs_eq]
        obtain ⟨hlt, hget⟩ := List.getElem?_eq_some_iff.mp htail
        rw [← hget, List.set_getElem_self]
      have hstep := hinv.step hpop hfront (pop_spec hinv.heap hpop).1 (.refl _) hsame.symm
      rw [mergeLoop_exhausted hpop hrun, hinv.filter hpop hfront k, List.filter_cons,
        List.filter_cons, ih _ hstep]

theorem mergeRuns_stable {runs : List (List α)}
    (hsorted : ∀ run ∈ runs, run.Pairwise fun a b => key a ≤ key b) (k : κ) :
    (mergeRuns key runs).filter (fun x => decide (key x = k)) =
      runs.flatten.filter fun x => decide (key x = k) := by
  have hempty : IsHeap (nodeRank key) (#[] : Array (α × Nat)) :=
    fun i _ => by rw [rankAt_of_le (i := i) (Nat.zero_le _)]; exact le_top
  exact mergeLoop_stable _ _ runs
    { heap := (primeHeap_spec key runs 0 #[] hempty).1
      nodes_perm := by simpa using primeHeap_heads runs 0 #[]
      runs_eq := rfl
      sorted := hsorted } k

/-- **The external sort is stable.** -/
theorem externalSort_stable (perRun : Nat) (records : List α) (k : κ) :
    (externalSort key perRun records).filter (fun x => decide (key x = k)) =
      records.filter fun x => decide (key x = k) := by
  rw [externalSort, mergeRuns_stable (sortedRuns_sorted key perRun records), sortedRuns_stable]

end ExternalSort

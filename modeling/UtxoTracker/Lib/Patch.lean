import UtxoTracker.Lib.KeyedStore
/-!
# Patches of keyed maps

A patch sets some keys of a map and clears others. Patches with no key in common can be applied in
either order, to a map and to a map of maps.
-/

namespace Patch

open KeyedStore

variable {κ ι β : Type*} [Ord κ] [Std.TransOrd κ] [Std.LawfulEqOrd κ] [DecidableEq κ]

/-- Set or clear one key after another. -/
def amend (changes : List (κ × Option β)) (m : Std.ExtTreeMap κ β) : Std.ExtTreeMap κ β :=
  changes.foldl (fun m change =>
    match change.2 with
    | some value => m.insert change.1 value
    | none => m.erase change.1) m

/-- The keys of two patches differ. -/
def Disjoint (changes changes' : List (κ × β)) : Prop :=
  ∀ change ∈ changes, ∀ change' ∈ changes', change.1 ≠ change'.1

omit [Std.LawfulEqOrd κ] [DecidableEq κ] in
theorem amend_cons (key : κ) (value : Option β) (rest : List (κ × Option β))
    (m : Std.ExtTreeMap κ β) :
    amend ((key, value) :: rest) m = amend rest (amend [(key, value)] m) := rfl

theorem getElem?_amend_one (key : κ) (value : Option β) (m : Std.ExtTreeMap κ β) (k : κ) :
    (amend [(key, value)] m)[k]? = if key = k then value else m[k]? := by
  cases value with
  | none => by_cases hk : key = k <;> simp [amend, Std.ExtTreeMap.getElem?_erase, hk]
  | some value => by_cases hk : key = k <;> simp [amend, Std.ExtTreeMap.getElem?_insert, hk]

theorem getElem?_amend_of_notMem {changes : List (κ × Option β)} {k : κ}
    (habsent : ∀ change ∈ changes, change.1 ≠ k) (m : Std.ExtTreeMap κ β) :
    (amend changes m)[k]? = m[k]? := by
  induction changes generalizing m with
  | nil => rfl
  | cons change rest ih =>
      obtain ⟨key, value⟩ := change
      rw [amend_cons, ih fun other hmem => habsent other (List.mem_cons_of_mem _ hmem),
        getElem?_amend_one, if_neg (habsent _ List.mem_cons_self)]

/-- A key that a patch sets or clears holds what the patch says, whatever it held before. -/
theorem getElem?_amend_of_mem {changes : List (κ × Option β)} {k : κ}
    (hmem : ∃ change ∈ changes, change.1 = k) (m m' : Std.ExtTreeMap κ β) :
    (amend changes m)[k]? = (amend changes m')[k]? := by
  induction changes generalizing m m' with
  | nil => simp at hmem
  | cons change rest ih =>
      obtain ⟨key, value⟩ := change
      rw [amend_cons key value rest m, amend_cons key value rest m']
      by_cases hrest : ∃ change ∈ rest, change.1 = k
      · exact ih hrest _ _
      · have hkey : key = k := by
          obtain ⟨change, hin, heq⟩ := hmem
          rcases List.mem_cons.mp hin with rfl | hin
          · exact heq
          · exact absurd ⟨change, hin, heq⟩ hrest
        have habsent : ∀ change ∈ rest, change.1 ≠ k := fun change hin heq => hrest ⟨change, hin, heq⟩
        rw [getElem?_amend_of_notMem habsent, getElem?_amend_of_notMem habsent, getElem?_amend_one,
          getElem?_amend_one, if_pos hkey, if_pos hkey]

/-- **Patches of different keys commute.** -/
theorem amend_comm {changes changes' : List (κ × Option β)} (hdisjoint : Disjoint changes changes')
    (m : Std.ExtTreeMap κ β) : amend changes (amend changes' m) = amend changes' (amend changes m) := by
  refine Std.ExtTreeMap.ext_getElem? fun k => ?_
  by_cases hmem : ∃ change ∈ changes, change.1 = k
  · have habsent : ∀ change' ∈ changes', change'.1 ≠ k := by
      obtain ⟨change, hin, rfl⟩ := hmem
      exact fun change' hin' heq => hdisjoint change hin change' hin' heq.symm
    rw [getElem?_amend_of_notMem habsent]
    exact getElem?_amend_of_mem hmem _ _
  · have habsent : ∀ change ∈ changes, change.1 ≠ k := fun change hin heq => hmem ⟨change, hin, heq⟩
    rw [getElem?_amend_of_notMem habsent]
    by_cases hmem' : ∃ change' ∈ changes', change'.1 = k
    · exact getElem?_amend_of_mem hmem' _ _
    · have habsent' : ∀ change' ∈ changes', change'.1 ≠ k :=
        fun change' hin heq => hmem' ⟨change', hin, heq⟩
      rw [getElem?_amend_of_notMem habsent', getElem?_amend_of_notMem habsent',
        getElem?_amend_of_notMem habsent]

/-! ### Maps of maps -/

variable [Ord ι] [Std.TransOrd ι] [Std.LawfulEqOrd ι] [DecidableEq ι]

/-- Add entries to the inner map at `outer`, which is there once it has an entry. -/
def record (outer : ι) (entries : List (κ × β)) (m : Std.ExtTreeMap ι (Std.ExtTreeMap κ β)) :
    Std.ExtTreeMap ι (Std.ExtTreeMap κ β) :=
  entries.foldl (fun m entry => m.insert outer ((m[outer]?.getD ∅).insert entry.1 entry.2)) m

omit [Std.LawfulEqOrd κ] [DecidableEq κ] in
theorem getElem?_record (outer : ι) (entries : List (κ × β))
    (m : Std.ExtTreeMap ι (Std.ExtTreeMap κ β)) (i : ι) :
    (record outer entries m)[i]? =
      if outer = i ∧ entries ≠ [] then some (stageAll entries (m[i]?.getD ∅)) else m[i]? := by
  induction entries generalizing m with
  | nil => simp [record]
  | cons entry rest ih =>
      have hstep : record outer (entry :: rest) m =
          record outer rest (m.insert outer ((m[outer]?.getD ∅).insert entry.1 entry.2)) := rfl
      rw [hstep, ih]
      by_cases hi : outer = i
      · subst hi
        cases rest with
        | nil => simp [stageAll]
        | cons next rest => simp [stageAll]
      · simp [Std.ExtTreeMap.getElem?_insert, hi]

theorem stageAll_comm {entries entries' : List (κ × β)} (hdisjoint : Disjoint entries entries')
    (m : Std.ExtTreeMap κ β) :
    stageAll entries (stageAll entries' m) = stageAll entries' (stageAll entries m) := by
  have hamend : ∀ (entries : List (κ × β)) (m : Std.ExtTreeMap κ β),
      stageAll entries m = amend (entries.map fun entry => (entry.1, some entry.2)) m := by
    intro entries m
    rw [stageAll, amend, List.foldl_map]
  rw [hamend, hamend, hamend, hamend, amend_comm]
  intro change hin change' hin'
  obtain ⟨entry, hmem, rfl⟩ := List.mem_map.mp hin
  obtain ⟨entry', hmem', rfl⟩ := List.mem_map.mp hin'
  exact hdisjoint entry hmem entry' hmem'

/-- **Records of different keys commute**, under one outer key or two. -/
theorem record_comm {entries entries' : List (κ × β)} (hdisjoint : Disjoint entries entries')
    (outer outer' : ι) (m : Std.ExtTreeMap ι (Std.ExtTreeMap κ β)) :
    record outer entries (record outer' entries' m) =
      record outer' entries' (record outer entries m) := by
  refine Std.ExtTreeMap.ext_getElem? fun i => ?_
  rw [getElem?_record, getElem?_record, getElem?_record, getElem?_record]
  by_cases hhere : outer = i ∧ entries ≠ []
  · by_cases hthere : outer' = i ∧ entries' ≠ []
    · rw [if_pos hhere, if_pos hthere, if_pos hthere, if_pos hhere, Option.getD_some,
        Option.getD_some, stageAll_comm hdisjoint]
    · rw [if_pos hhere, if_neg hthere, if_neg hthere, if_pos hhere]
  · by_cases hthere : outer' = i ∧ entries' ≠ []
    · rw [if_neg hhere, if_pos hthere, if_pos hthere, if_neg hhere]
    · rw [if_neg hhere, if_neg hthere, if_neg hthere, if_neg hhere]

end Patch

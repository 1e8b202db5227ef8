import Mathlib.Data.List.Chain
import Mathlib.Logic.Relation
/-!
# Runs of a transition system

A run starts in an initial state and takes one step after another. An invariant that holds initially
and that every step keeps holds in every state of every run.
-/

namespace Transition

variable {σ : Type*} (init : σ → Prop) (step : σ → σ → Prop)

/-- The states that some finite run reaches. -/
inductive Reachable : σ → Prop where
  | start {s : σ} (hinit : init s) : Reachable s
  | next {s t : σ} (hreach : Reachable s) (hstep : step s t) : Reachable t

variable {init step}

/-- **The run rule**: an inductive invariant holds in every reachable state. -/
theorem Reachable.invariant {inv : σ → Prop} (hinit : ∀ s, init s → inv s)
    (hstep : ∀ s t, inv s → step s t → inv t) {s : σ} (hreach : Reachable init step s) : inv s := by
  induction hreach with
  | start h => exact hinit _ h
  | next _ h ih => exact hstep _ _ ih h

theorem Reachable.trans {s t : σ} (hreach : Reachable init step s)
    (hrun : Relation.ReflTransGen step s t) : Reachable init step t := by
  induction hrun with
  | refl => exact hreach
  | tail _ h ih => exact ih.next h

/-- A run of fewer steps, from fewer states, is a run. -/
theorem Reachable.mono {init' : σ → Prop} {step' : σ → σ → Prop} (hinit : ∀ s, init s → init' s)
    (hstep : ∀ s t, step s t → step' s t) {s : σ} (hreach : Reachable init step s) :
    Reachable init' step' s := by
  induction hreach with
  | start h => exact .start (hinit _ h)
  | next _ h ih => exact ih.next (hstep _ _ h)

/-- An invariant holds in every state of a run. -/
theorem forall_of_isChain {inv : σ → Prop} (hstep : ∀ s t, inv s → step s t → inv t) :
    ∀ {run : List σ} {s : σ}, inv s → (s :: run).IsChain step → ∀ t ∈ s :: run, inv t := by
  intro run
  induction run with
  | nil =>
      intro s hinv _ t ht
      obtain rfl := List.mem_singleton.mp ht
      exact hinv
  | cons u rest ih =>
      intro s hinv hrun t ht
      obtain ⟨hfirst, hrest⟩ := List.isChain_cons_cons.mp hrun
      rcases List.mem_cons.mp ht with rfl | ht
      · exact hinv
      · exact ih (hstep s u hinv hfirst) hrest t ht

/-! ### Runs with steps that break the invariant -/

/-- **A run is good exactly when nothing in it breaks**: every step keeps the invariant unless it
breaks, and a step that breaks shows in the state it leads to. -/
theorem forall_good_iff_unbroken {inv good : σ → Prop} {breaks : σ → σ → Prop}
    (hgood : ∀ s, inv s → good s)
    (hkeeps : ∀ s t, inv s → step s t → ¬ breaks s t → inv t)
    (hbreaks : ∀ s t, inv s → step s t → breaks s t → ¬ good t) :
    ∀ {run : List σ} {s : σ}, inv s → (s :: run).IsChain step →
      ((∀ t ∈ s :: run, good t) ↔ (s :: run).IsChain fun t u => ¬ breaks t u) := by
  intro run
  induction run with
  | nil =>
      intro s hinv _
      refine ⟨fun _ => List.isChain_singleton _, fun _ t ht => ?_⟩
      obtain rfl := List.mem_singleton.mp ht
      exact hgood t hinv
  | cons t rest ih =>
      intro s hinv hrun
      obtain ⟨hstep, hrest⟩ := List.isChain_cons_cons.mp hrun
      rw [List.isChain_cons_cons]
      constructor
      · intro hall
        have hkept : ¬ breaks s t := fun hbroken =>
          hbreaks s t hinv hstep hbroken (hall t (List.mem_cons_of_mem _ List.mem_cons_self))
        refine ⟨hkept, (ih (hkeeps s t hinv hstep hkept) hrest).mp fun u hu => ?_⟩
        exact hall u (List.mem_cons_of_mem _ hu)
      · rintro ⟨hkept, hunbroken⟩ u hu
        rcases List.mem_cons.mp hu with rfl | hu
        · exact hgood _ hinv
        · exact (ih (hkeeps s t hinv hstep hkept) hrest).mpr hunbroken u hu

end Transition

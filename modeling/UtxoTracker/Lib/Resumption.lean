import Mathlib.Data.List.Basic
/-!
# Computations that look at a shared state

An asynchronous computation runs in stretches. At the start of each it looks at the state as it then
is, and others may change the state in between. A resumption is such a computation with the state left
open: either done, or waiting for its next look.

Nothing here depends on a particular state.
-/

/-- A computation with result `α` over a shared state `σ`. -/
inductive Resumption (σ : Type) (α : Type) where
  | done (result : α)
  | await (next : σ → Resumption σ α)

namespace Resumption

variable {σ α β : Type}

protected def bind (computation : Resumption σ α) (continuation : α → Resumption σ β) :
    Resumption σ β :=
  match computation with
  | done result => continuation result
  | await next => await fun s => (next s).bind continuation

instance : Monad (Resumption σ) where
  pure := done
  bind := Resumption.bind

/-- Look at the state once. -/
def observe (look : σ → α) : Resumption σ α := await fun s => done (look s)

/-- The result over a state that stays as it is. -/
def runAlone (s : σ) : Resumption σ α → α
  | done result => result
  | await next => (next s).runAlone s

/-- What is left after the given looks. A computation that is done looks no more. -/
def advance : Resumption σ α → List σ → Resumption σ α
  | computation, [] => computation
  | done result, _ :: _ => done result
  | await next, s :: rest => (next s).advance rest

@[simp] theorem runAlone_pure (s : σ) (result : α) :
    (pure result : Resumption σ α).runAlone s = result := rfl

@[simp] theorem runAlone_observe (s : σ) (look : σ → α) : (observe look).runAlone s = look s := rfl

@[simp]
theorem runAlone_bind (s : σ) (computation : Resumption σ α) (continuation : α → Resumption σ β) :
    (computation >>= continuation).runAlone s =
      (continuation (computation.runAlone s)).runAlone s := by
  change (computation.bind continuation).runAlone s = _
  induction computation with
  | done result => rfl
  | await next ih => exact ih s

@[simp] theorem advance_nil (computation : Resumption σ α) : computation.advance [] = computation := by
  cases computation <;> rfl

@[simp] theorem advance_await (next : σ → Resumption σ α) (s : σ) (rest : List σ) :
    (await next).advance (s :: rest) = (next s).advance rest := rfl

theorem advance_append (computation : Resumption σ α) (first second : List σ) :
    computation.advance (first ++ second) = (computation.advance first).advance second := by
  induction first generalizing computation with
  | nil => rw [List.nil_append, advance_nil]
  | cons s rest ih =>
      cases computation with
      | done result =>
          cases second with
          | nil => rfl
          | cons _ _ => rfl
      | await next => exact ih (next s)

/-! ### Postconditions -/

/-- However the state moves among the allowed ones, the result satisfies the postcondition. -/
def Ensures (allowed : σ → Prop) (post : α → Prop) : Resumption σ α → Prop
  | done result => post result
  | await next => ∀ s, allowed s → (next s).Ensures allowed post

variable {allowed : σ → Prop} {post post' : α → Prop} {computation : Resumption σ α}

theorem Ensures.pure {result : α} (hpost : post result) :
    (pure result : Resumption σ α).Ensures allowed post := hpost

theorem Ensures.observe_bind {look : σ → β} {next : β → Resumption σ α}
    (hnext : ∀ s, allowed s → (next (look s)).Ensures allowed post) :
    (Resumption.observe look >>= next).Ensures allowed post := hnext

theorem Ensures.bind {mid : β → Prop} {first : Resumption σ β} {next : β → Resumption σ α}
    (hfirst : first.Ensures allowed mid) (hnext : ∀ b, mid b → (next b).Ensures allowed post) :
    (first >>= next).Ensures allowed post := by
  induction first with
  | done result => exact hnext result hfirst
  | await step ih =>
      intro s hs
      exact ih s (hfirst s hs)

theorem Ensures.mono (hensures : computation.Ensures allowed post)
    (himp : ∀ result, post result → post' result) : computation.Ensures allowed post' := by
  induction computation with
  | done result => exact himp result hensures
  | await next ih =>
      intro s hs
      exact ih s (hensures s hs)

/-- **The looks of a run**: a computation that ends after allowed looks ends as ensured. -/
theorem Ensures.of_advance {seen : List σ} {result : α} (hensures : computation.Ensures allowed post)
    (hseen : ∀ s ∈ seen, allowed s) (hdone : computation.advance seen = done result) :
    post result := by
  induction seen generalizing computation with
  | nil =>
      rw [advance_nil] at hdone
      subst hdone
      exact hensures
  | cons s rest ih =>
      cases computation with
      | done other =>
          obtain rfl : other = result := by
            injection hdone
          exact hensures
      | await next =>
          exact ih (hensures s (hseen s List.mem_cons_self))
            (fun t ht => hseen t (List.mem_cons_of_mem _ ht)) hdone

theorem Ensures.runAlone {s : σ} (hensures : computation.Ensures allowed post) (hs : allowed s) :
    post (computation.runAlone s) := by
  induction computation with
  | done result => exact hensures
  | await next ih => exact ih s (hensures s hs)

/-- No allowed move of the state changes the result. -/
def Steady (allowed : σ → Prop) (s : σ) (computation : Resumption σ α) : Prop :=
  computation.Ensures allowed (· = computation.runAlone s)

theorem Steady.pure (s : σ) (result : α) : Steady allowed s (pure result : Resumption σ α) := rfl

theorem Steady.observe {s : σ} {look : σ → α} (hlook : ∀ t, allowed t → look t = look s) :
    Steady allowed s (observe look) := hlook

theorem Steady.ensures_bind {s : σ} {first : Resumption σ β} {next : β → Resumption σ α}
    (hfirst : Steady allowed s first)
    (hnext : (next (first.runAlone s)).Ensures allowed post) :
    (first >>= next).Ensures allowed post := by
  refine Ensures.bind hfirst fun b hb => ?_
  subst hb
  exact hnext

theorem Steady.bind {s : σ} {first : Resumption σ β} {next : β → Resumption σ α}
    (hfirst : Steady allowed s first) (hnext : ∀ b, Steady allowed s (next b)) :
    Steady allowed s (first >>= next) := by
  refine hfirst.ensures_bind ?_
  rw [runAlone_bind]
  exact hnext _

end Resumption

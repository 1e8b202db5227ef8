import Mathlib.Logic.Basic
/-!
# Programs that may throw

What a program does from a state: a state and a value when it returns, a state and an error when it
throws. A throw undoes nothing.
-/

namespace Throwing

universe u

variable {ε σ α β : Type u}

/-- From `s` the program returns as `returns` says or throws as `throws` says. -/
def Ensures (x : EStateM ε σ α) (s : σ) (returns : α → σ → Prop) (throws : ε → σ → Prop) : Prop :=
  match x s with
  | .ok a s' => returns a s'
  | .error e s' => throws e s'

/-- From `s` the program returns. -/
def Succeeds (x : EStateM ε σ α) (s : σ) : Prop := ∃ a s', x s = .ok a s'

/-- A program and what is done when it throws, which is thrown on. -/
def onError (x : EStateM ε σ α) (cleanup : σ → σ) : EStateM ε σ α := fun s =>
  match x s with
  | .ok a s' => .ok a s'
  | .error e s' => .error e (cleanup s')

/-- What the program gives or throws, caught. -/
def attempt (x : EStateM ε σ α) : EStateM ε σ (Except ε α) := fun s =>
  match x s with
  | .ok a s' => .ok (.ok a) s'
  | .error e s' => .ok (.error e) s'

/-- An `Except` as a program. -/
def lift : Except ε α → EStateM ε σ α
  | .ok a => pure a
  | .error e => throw e

namespace Ensures

variable {x : EStateM ε σ α} {f : α → EStateM ε σ β} {s : σ} {returns returns' : α → σ → Prop}
  {throws throws' : ε → σ → Prop}

theorem pure {a : α} (hreturns : returns a s) : Ensures (pure a) s returns throws := hreturns

theorem throw {e : ε} (hthrows : throws e s) : Ensures (throw e) s returns throws := hthrows

theorem mono (hx : Ensures x s returns throws) (hreturns : ∀ a s', returns a s' → returns' a s')
    (hthrows : ∀ e s', throws e s' → throws' e s') : Ensures x s returns' throws' := by
  unfold Ensures at hx ⊢
  cases hrun : x s with
  | ok a s' =>
      rw [hrun] at hx
      exact hreturns a s' hx
  | error e s' =>
      rw [hrun] at hx
      exact hthrows e s' hx

/-- **One program after the other**: the second starts where the first returns. -/
theorem bind {returns : β → σ → Prop} {between : α → σ → Prop} (hx : Ensures x s between throws)
    (hf : ∀ a s', between a s' → Ensures (f a) s' returns throws) :
    Ensures (x >>= f) s returns throws := by
  have hbind : (x >>= f) s = (x >>= f).run s := rfl
  unfold Ensures at hx ⊢
  rw [hbind, EStateM.run_bind]
  cases hrun : x.run s with
  | ok a s' =>
      have hrun' : x s = .ok a s' := hrun
      rw [hrun'] at hx
      exact hf a s' hx
  | error e s' =>
      have hrun' : x s = .error e s' := hrun
      rw [hrun'] at hx
      exact hx

/-- The same, when the first program's throws are among those of the whole. -/
theorem bind_mono {returns : β → σ → Prop} {between : α → σ → Prop} {thrown : ε → σ → Prop}
    (hx : Ensures x s between thrown) (hthrows : ∀ e s', thrown e s' → throws e s')
    (hf : ∀ a s', between a s' → Ensures (f a) s' returns throws) :
    Ensures (x >>= f) s returns throws :=
  (hx.mono (fun _ _ hbetween => hbetween) hthrows).bind hf

theorem lift {x : Except ε α} (hreturns : ∀ a, x = .ok a → returns a s)
    (hthrows : ∀ e, x = .error e → throws e s) : Ensures (lift x) s returns throws := by
  cases x with
  | ok a => exact hreturns a rfl
  | error e => exact hthrows e rfl

theorem onError {cleanup : σ → σ} {thrown : ε → σ → Prop} (hx : Ensures x s returns thrown)
    (hcleanup : ∀ e s', thrown e s' → throws e (cleanup s')) :
    Ensures (onError x cleanup) s returns throws := by
  unfold Ensures at hx
  unfold Ensures Throwing.onError
  cases hrun : x s with
  | ok a s' =>
      rw [hrun] at hx
      exact hx
  | error e s' =>
      rw [hrun] at hx
      exact hcleanup e s' hx

/-- A caught program does not throw. -/
theorem attempt {returns : Except ε α → σ → Prop} {throws' : ε → σ → Prop}
    (hx : Ensures x s (fun a s' => returns (.ok a) s') fun e s' => returns (.error e) s') :
    Ensures (attempt x) s returns throws' := by
  unfold Ensures at hx
  unfold Ensures Throwing.attempt
  cases hrun : x s with
  | ok a s' =>
      rw [hrun] at hx
      exact hx
  | error e s' =>
      rw [hrun] at hx
      exact hx

theorem returned (hx : Ensures x s returns throws) (hsucceeds : Succeeds x s) :
    ∃ a s', returns a s' := by
  obtain ⟨a, s', hrun⟩ := hsucceeds
  unfold Ensures at hx
  rw [hrun] at hx
  exact ⟨a, s', hx⟩

theorem succeeds (hx : Ensures x s returns throws) (hthrows : ∀ e s', ¬throws e s') :
    Succeeds x s := by
  unfold Ensures at hx
  cases hrun : x s with
  | ok a s' => exact ⟨a, s', hrun⟩
  | error e s' =>
      rw [hrun] at hx
      exact absurd hx (hthrows e s')

end Ensures

end Throwing

import Mathlib.Data.List.Basic
/-!
# Generators that may throw

What a generator yields before it ends, and what it throws instead of ending.
-/

structure Generator (α ε : Type*) where
  yielded : List α
  thrown : Option ε
  deriving DecidableEq, Repr

namespace Generator

variable {α ε : Type*}

/-- The generator that ends after some items. -/
def ended (items : List α) : Generator α ε := ⟨items, none⟩

def throw (e : ε) : Generator α ε := ⟨[], some e⟩

/-- `yield` before the rest. -/
def cons (a : α) (rest : Generator α ε) : Generator α ε := ⟨a :: rest.yielded, rest.thrown⟩

/-- `yield*` of one generator before the rest, which starts only when that one ends. -/
def delegate (first rest : Generator α ε) : Generator α ε :=
  match first.thrown with
  | some e => ⟨first.yielded, some e⟩
  | none => ⟨first.yielded ++ rest.yielded, rest.thrown⟩

@[simp] theorem cons_ended (a : α) (items : List α) :
    cons a (ended items : Generator α ε) = ended (a :: items) := rfl

@[simp] theorem delegate_ended (first : List α) (rest : Generator α ε) :
    delegate (ended first) rest = ⟨first ++ rest.yielded, rest.thrown⟩ := rfl

theorem delegate_ended_ended (first rest : List α) :
    delegate (ended first : Generator α ε) (ended rest) = ended (first ++ rest) := rfl

/-- A generator ends if it throws nothing. -/
theorem exists_eq_ended_iff {holds : List α → Prop} {g : Generator α ε} :
    (∃ items, g = ended items ∧ holds items) ↔ g.thrown = none ∧ holds g.yielded := by
  constructor
  · rintro ⟨items, rfl, hitems⟩
    exact ⟨rfl, hitems⟩
  · rintro ⟨hthrown, hitems⟩
    refine ⟨g.yielded, ?_, hitems⟩
    rw [ended, ← hthrown]

end Generator

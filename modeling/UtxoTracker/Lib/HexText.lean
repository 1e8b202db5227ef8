import Mathlib.Algebra.Ring.Nat
import Mathlib.Data.Nat.Init
/-!
# Numbers as hexadecimal text

A number written in a fixed count of hexadecimal digits, most significant first, and read back. Either
case of a letter is read.
-/

namespace HexText

/-- The lowest `width` hexadecimal digits of `n`. -/
def write : Nat → Nat → List Char
  | 0, _ => []
  | width + 1, n => write width (n / 16) ++ [Nat.digitChar (n % 16)]

def digitValue (c : Char) : Option Nat :=
  if '0' ≤ c ∧ c ≤ '9' then some (c.toNat - '0'.toNat)
  else if 'a' ≤ c ∧ c ≤ 'f' then some (c.toNat - 'a'.toNat + 10)
  else if 'A' ≤ c ∧ c ≤ 'F' then some (c.toNat - 'A'.toNat + 10)
  else none

/-- One more digit read. -/
def readDigit (acc : Option Nat) (c : Char) : Option Nat :=
  acc.bind fun n => (digitValue c).map fun d => 16 * n + d

/-- The number a text of hexadecimal digits stands for. -/
def read (text : List Char) : Option Nat := text.foldl readDigit (some 0)

@[simp] theorem length_write (width n : Nat) : (write width n).length = width := by
  induction width generalizing n with
  | zero => rfl
  | succ width ih => simp [write, ih]

theorem digitValue_digitChar {d : Nat} (hlt : d < 16) : digitValue (Nat.digitChar d) = some d := by
  have hall : ∀ d : Fin 16, digitValue (Nat.digitChar d) = some d.val := by decide
  exact hall ⟨d, hlt⟩

theorem isHexDigit_of_mem_write {width n : Nat} {c : Char} (hmem : c ∈ write width n) :
    (digitValue c).isSome := by
  induction width generalizing n with
  | zero => cases hmem
  | succ width ih =>
      rw [write, List.mem_append, List.mem_singleton] at hmem
      rcases hmem with hmem | rfl
      · exact ih hmem
      · rw [digitValue_digitChar (Nat.mod_lt _ (by decide))]
        rfl

/-- Reading a number on after what was read before. -/
theorem foldl_readDigit_write {width n : Nat} (hfits : n < 16 ^ width) (acc : Nat) :
    (write width n).foldl readDigit (some acc) = some (acc * 16 ^ width + n) := by
  induction width generalizing n with
  | zero =>
      obtain rfl : n = 0 := by omega
      simp [write]
  | succ width ih =>
      have hhigh : n / 16 < 16 ^ width := by
        rw [Nat.div_lt_iff_lt_mul (by decide)]
        rwa [Nat.pow_succ] at hfits
      have hshift : 16 * (acc * 16 ^ width) = acc * 16 ^ (width + 1) := by
        rw [Nat.pow_succ, Nat.mul_comm 16, Nat.mul_assoc]
      rw [write, List.foldl_append, ih hhigh, List.foldl_cons, List.foldl_nil, readDigit,
        digitValue_digitChar (Nat.mod_lt _ (by decide))]
      simp only [Option.bind_some, Option.map_some, Option.some.injEq]
      omega

/-- **Reading what was written** gives the number back, when its digits fit. -/
theorem read_write {width n : Nat} (hfits : n < 16 ^ width) : read (write width n) = some n := by
  rw [read, foldl_readDigit_write hfits, Nat.zero_mul, Nat.zero_add]

end HexText

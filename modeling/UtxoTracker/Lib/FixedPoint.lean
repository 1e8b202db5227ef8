import Mathlib.Algebra.Ring.Nat
import Mathlib.Data.List.Basic
/-!
# Fixed-point decimals

A number written as its whole part, a point, and a fraction filled up with zeros to a fixed count of
places. Its digits, the point left out, are the number's own in units of the last place.
-/

namespace FixedPoint

theorem toList_pushn (text : String) (c : Char) (count : Nat) :
    (text.pushn c count).toList = text.toList ++ List.replicate count c := by
  rw [String.pushn_eq_repeat_push]
  induction count with
  | zero => exact (List.append_nil _).symm
  | succ count ih =>
      rw [Nat.repeat, String.toList_push, ih, List.append_assoc, List.replicate_succ']

/-- The digits of a fraction, filled up to some places. -/
def paddedDigits (places fraction : Nat) : List Char :=
  List.replicate (places - (Nat.repr fraction).length) '0' ++ Nat.toDigits 10 fraction

variable {places fraction n : Nat}

theorem length_paddedDigits (hpos : 0 < places) (hlt : fraction < 10 ^ places) :
    (paddedDigits places fraction).length = places := by
  have hle : (Nat.repr fraction).length ≤ places := (Nat.length_repr_le_iff hpos).mpr hlt
  rw [paddedDigits, List.length_append, List.length_replicate, ← Nat.toList_repr,
    String.length_toList]
  omega

theorem filter_isDigit_toDigits : (Nat.toDigits 10 n).filter Char.isDigit = Nat.toDigits 10 n :=
  List.filter_eq_self.mpr fun _ hmem => Nat.isDigit_of_mem_toDigits (by decide) (by decide) hmem

theorem filter_isDigit_paddedDigits :
    (paddedDigits places fraction).filter Char.isDigit = paddedDigits places fraction := by
  rw [paddedDigits, List.filter_append, filter_isDigit_toDigits, List.filter_replicate,
    if_pos (by decide)]

theorem ofDigitChars_paddedDigits :
    Nat.ofDigitChars 10 (paddedDigits places fraction) 0 = fraction := by
  rw [paddedDigits, Nat.ofDigitChars_append, Nat.ofDigitChars_replicate_zero, Nat.mul_zero,
    Nat.ofDigitChars_ten_toDigits]

/-- **The digits of both parts** are the number's. -/
theorem ofDigitChars_parts (hpos : 0 < places) :
    Nat.ofDigitChars 10
      (Nat.toDigits 10 (n / 10 ^ places) ++ paddedDigits places (n % 10 ^ places)) 0 = n := by
  have hlength : (paddedDigits places (n % 10 ^ places)).length = places :=
    length_paddedDigits hpos (Nat.mod_lt _ (Nat.pow_pos (by decide)))
  rw [Nat.ofDigitChars_append, Nat.ofDigitChars_ten_toDigits, Nat.ofDigitChars_eq_ofDigitChars_zero,
    hlength, ofDigitChars_paddedDigits, Nat.div_add_mod]

/-- No number's first digit is a sign. -/
theorem head?_toDigits_append (rest : List Char) :
    (Nat.toDigits 10 n ++ rest).head? ≠ some '-' := by
  obtain ⟨c, others, hcons⟩ : ∃ c others, Nat.toDigits 10 n = c :: others :=
    List.exists_cons_of_ne_nil Nat.toDigits_ne_nil
  have hdigit : c.isDigit = true :=
    Nat.isDigit_of_mem_toDigits (by decide) (by decide) (hcons ▸ List.mem_cons_self)
  rw [hcons]
  intro hhead
  obtain rfl : c = '-' := Option.some.inj hhead
  cases hdigit

end FixedPoint

import Mathlib.Data.List.Basic
/-!
# The bytewise order of keys

Byte strings compared byte by byte, a string before every longer one it begins. The strings that
begin with given bytes form an interval, whose upper end is those bytes followed by enough `0xFF`.
-/

namespace ByteOrder

def bytewiseLe : List UInt8 → List UInt8 → Bool
  | [], _ => true
  | _ :: _, [] => false
  | a :: as, b :: bs => decide (a < b) || (decide (a = b) && bytewiseLe as bs)

@[simp]
theorem nil_le (key : List UInt8) : bytewiseLe [] key = true := by
  cases key <;> rfl

theorem cons_le_cons {a b : UInt8} {as bs : List UInt8} :
    bytewiseLe (a :: as) (b :: bs) = true ↔ a < b ∨ a = b ∧ bytewiseLe as bs = true := by
  rw [bytewiseLe, Bool.or_eq_true, Bool.and_eq_true, decide_eq_true_iff, decide_eq_true_iff]

theorem le_refl (key : List UInt8) : bytewiseLe key key = true := by
  induction key with
  | nil => rfl
  | cons a as ih => exact cons_le_cons.mpr (.inr ⟨rfl, ih⟩)

theorem le_append (start rest : List UInt8) : bytewiseLe start (start ++ rest) = true := by
  induction start with
  | nil => exact nil_le _
  | cons a as ih => exact cons_le_cons.mpr (.inr ⟨rfl, ih⟩)

/-- No string of the length is above the highest one. -/
theorem le_replicate {key : List UInt8} {n : Nat} (hlength : key.length ≤ n) :
    bytewiseLe key (List.replicate n 0xFF) = true := by
  induction key generalizing n with
  | nil => exact nil_le _
  | cons a as ih =>
      obtain ⟨m, rfl⟩ : ∃ m, n = m + 1 :=
        ⟨n - 1, by rw [List.length_cons] at hlength; omega⟩
      rw [List.length_cons] at hlength
      apply cons_le_cons.mpr
      by_cases htop : a = 0xFF
      · exact .inr ⟨htop, ih (by omega)⟩
      · left
        have hne : a.toNat ≠ 255 := fun heq => htop (UInt8.toNat_inj.mp heq)
        have hbyte := a.toNat_lt
        rw [UInt8.lt_iff_toNat_lt]
        have htoNat : (0xFF : UInt8).toNat = 255 := by decide
        omega

/-- **The strings between `start` and its padded end are those that begin with it**, as long as the
padding is at least as long as what follows `start` in them. -/
theorem between_iff_starts {start key : List UInt8} {n : Nat}
    (hlength : key.length ≤ start.length + n) :
    (bytewiseLe start key = true ∧ bytewiseLe key (start ++ List.replicate n 0xFF) = true) ↔
      start <+: key := by
  induction start generalizing key with
  | nil =>
      rw [List.length_nil, Nat.zero_add] at hlength
      exact iff_of_true ⟨nil_le _, le_replicate hlength⟩ ⟨key, rfl⟩
  | cons a as ih =>
      cases key with
      | nil =>
          refine iff_of_false ?_ (by simp)
          rintro ⟨hlow, -⟩
          cases hlow
      | cons b bs =>
          rw [List.length_cons, List.length_cons] at hlength
          rw [List.cons_append, cons_le_cons, cons_le_cons, List.cons_prefix_cons,
            ← ih (show bs.length ≤ as.length + n by omega)]
          constructor
          · rintro ⟨hab | ⟨rfl, hlow⟩, hba | ⟨hsame, hhigh⟩⟩
            · rw [UInt8.lt_iff_toNat_lt] at hab hba
              omega
            · rw [hsame, UInt8.lt_iff_toNat_lt] at hab
              omega
            · rw [UInt8.lt_iff_toNat_lt] at hba
              omega
            · exact ⟨rfl, hlow, hhigh⟩
          · rintro ⟨rfl, hlow, hhigh⟩
            exact ⟨.inr ⟨rfl, hlow⟩, .inr ⟨rfl, hhigh⟩⟩

end ByteOrder

import UtxoTracker.Lib.ByteOrder
import UtxoTracker.Lib.ByteString
/-!
# The order of fixed-width fields

Keys that are made of big-endian fields of the same widths compare byte by byte as their numbers
compare field by field.
-/

namespace ByteOrder

open ByteString

/-- The strict part of the bytewise order. -/
def bytewiseLt (key key' : List UInt8) : Prop := bytewiseLe key key' = true ∧ key ≠ key'

instance : Std.Irrefl bytewiseLt := ⟨fun _ hlt => hlt.2 rfl⟩

theorem cons_lt_cons {a b : UInt8} {as bs : List UInt8} :
    bytewiseLt (a :: as) (b :: bs) ↔ a < b ∨ a = b ∧ bytewiseLt as bs := by
  rw [bytewiseLt, cons_le_cons]
  constructor
  · rintro ⟨hlt | ⟨rfl, hle⟩, hne⟩
    · exact Or.inl hlt
    · exact Or.inr ⟨rfl, hle, fun heq => hne (by rw [heq])⟩
  · rintro (hlt | ⟨rfl, hle, hne⟩)
    · refine ⟨Or.inl hlt, fun heq => ?_⟩
      rw [(List.cons.inj heq).1] at hlt
      exact UInt8.lt_irrefl b hlt
    · exact ⟨Or.inr ⟨rfl, hle⟩, fun heq => hne (List.cons.inj heq).2⟩

theorem bytewiseLt_asymm {as bs : List UInt8} (hlt : bytewiseLt as bs) : ¬ bytewiseLt bs as := by
  induction as generalizing bs with
  | nil =>
      rintro ⟨hle, hne⟩
      cases bs with
      | nil => exact hne rfl
      | cons b bs => cases hle
  | cons a as ih =>
      cases bs with
      | nil => cases hlt.1
      | cons b bs =>
          intro hback
          rcases cons_lt_cons.mp hlt with hab | ⟨rfl, htail⟩
          · rcases cons_lt_cons.mp hback with hba | ⟨rfl, -⟩
            · rw [UInt8.lt_iff_toNat_lt] at hab hba
              omega
            · exact UInt8.lt_irrefl b hab
          · rcases cons_lt_cons.mp hback with haa | ⟨-, hback⟩
            · exact UInt8.lt_irrefl a haa
            · exact ih htail hback

theorem le_total (as bs : List UInt8) : bytewiseLe as bs = true ∨ bytewiseLe bs as = true := by
  induction as generalizing bs with
  | nil => exact Or.inl (nil_le bs)
  | cons a as ih =>
      cases bs with
      | nil => exact Or.inr (nil_le (a :: as))
      | cons b bs =>
          rw [cons_le_cons, cons_le_cons]
          by_cases hab : a = b
          · rcases ih bs with hle | hle
            · exact Or.inl (Or.inr ⟨hab, hle⟩)
            · exact Or.inr (Or.inr ⟨hab.symm, hle⟩)
          · rcases UInt8.lt_or_lt_of_ne hab with hlt | hlt
            · exact Or.inl (Or.inl hlt)
            · exact Or.inr (Or.inl hlt)

theorem le_trans {as bs cs : List UInt8} (hab : bytewiseLe as bs = true)
    (hbc : bytewiseLe bs cs = true) : bytewiseLe as cs = true := by
  induction as generalizing bs cs with
  | nil => exact nil_le cs
  | cons a as ih =>
      cases bs with
      | nil => cases hab
      | cons b bs =>
          cases cs with
          | nil => cases hbc
          | cons c cs =>
              rw [cons_le_cons] at hab hbc ⊢
              rcases hab with hab | ⟨rfl, hab⟩
              · rcases hbc with hbc | ⟨rfl, -⟩
                · exact Or.inl (UInt8.lt_trans hab hbc)
                · exact Or.inl hab
              · rcases hbc with hbc | ⟨rfl, hbc⟩
                · exact Or.inl hbc
                · exact Or.inr ⟨rfl, ih hab hbc⟩

/-- The first field that differs decides. -/
theorem append_lt_append {as bs : List UInt8} (hlength : as.length = bs.length)
    (hlt : bytewiseLt as bs) (more more' : List UInt8) : bytewiseLt (as ++ more) (bs ++ more') := by
  induction as generalizing bs with
  | nil =>
      obtain rfl := List.eq_nil_of_length_eq_zero hlength.symm
      exact absurd rfl hlt.2
  | cons a as ih =>
      cases bs with
      | nil => cases hlength
      | cons b bs =>
          rw [List.cons_append, List.cons_append, cons_lt_cons]
          rcases cons_lt_cons.mp hlt with hhead | ⟨hhead, htail⟩
          · exact Or.inl hhead
          · exact Or.inr ⟨hhead, ih (Nat.succ.inj hlength) htail⟩

/-- A field that agrees leaves it to what follows. -/
theorem append_lt_append_left (as : List UInt8) {more more' : List UInt8}
    (hlt : bytewiseLt more more') : bytewiseLt (as ++ more) (as ++ more') := by
  induction as with
  | nil => exact hlt
  | cons a as ih => exact cons_lt_cons.mpr (Or.inr ⟨rfl, ih⟩)

/-- Big-endian numbers of one width compare as numbers. -/
theorem toBE_lt_toBE {width n m : Nat} (hm : m < 256 ^ width) (hlt : n < m) :
    bytewiseLt (toBE width n) (toBE width m) := by
  induction width generalizing n m with
  | zero =>
      rw [Nat.pow_zero] at hm
      omega
  | succ width ih =>
      rw [toBE_succ, toBE_succ]
      rw [Nat.pow_succ] at hm
      by_cases hhigh : n / 256 < m / 256
      · apply append_lt_append
        · rw [length_toBE, length_toBE]
        · exact ih (by omega) hhigh
      · have hsame : n / 256 = m / 256 := by omega
        rw [hsame]
        apply append_lt_append_left
        rw [cons_lt_cons]
        left
        rw [UInt8.lt_iff_toNat_lt, UInt8.toNat_ofNat', UInt8.toNat_ofNat']
        omega

/-- Fields of a width and a number each, one after the other. -/
def fieldBytes : List (Nat × Nat) → List UInt8
  | [] => []
  | (width, n) :: rest => toBE width n ++ fieldBytes rest

def Fits (fields : List (Nat × Nat)) : Prop := ∀ field ∈ fields, field.2 < 256 ^ field.1

theorem fits_nil : Fits [] := fun _ hmem => nomatch hmem

theorem Fits.cons {width n : Nat} {rest : List (Nat × Nat)} (hn : n < 256 ^ width)
    (hrest : Fits rest) : Fits ((width, n) :: rest) := by
  intro field hmem
  rcases List.mem_cons.mp hmem with rfl | hmem
  · exact hn
  · exact hrest field hmem

/-- **Fields of the same widths compare as their numbers.** -/
theorem fieldBytes_lt {fields fields' : List (Nat × Nat)}
    (hwidths : fields.map Prod.fst = fields'.map Prod.fst) (hfits : Fits fields')
    (hlt : compare (fields.map Prod.snd) (fields'.map Prod.snd) = .lt) :
    bytewiseLt (fieldBytes fields) (fieldBytes fields') := by
  induction fields generalizing fields' with
  | nil =>
      obtain rfl : fields' = [] := by
        rw [List.map_nil] at hwidths
        exact List.map_eq_nil_iff.mp hwidths.symm
      cases hlt
  | cons field rest ih =>
      obtain ⟨width, n⟩ := field
      cases fields' with
      | nil => cases hwidths
      | cons field' rest' =>
          obtain ⟨width', m⟩ := field'
          obtain ⟨rfl, hrest⟩ := List.cons.inj hwidths
          rw [List.map_cons, List.map_cons, List.compare_cons_cons, Ordering.then_eq_lt] at hlt
          rw [fieldBytes, fieldBytes]
          rcases hlt with hhead | ⟨hhead, htail⟩
          · apply append_lt_append
            · rw [length_toBE, length_toBE]
            · exact toBE_lt_toBE (hfits (width, m) List.mem_cons_self) (Nat.compare_eq_lt.mp hhead)
          · obtain rfl : n = m := Nat.compare_eq_eq.mp hhead
            apply append_lt_append_left
            exact ih hrest (fun other hmem => hfits other (List.mem_cons_of_mem _ hmem)) htail

end ByteOrder

import Mathlib.Algebra.Ring.Int.Defs
import Mathlib.Data.List.Basic
import UtxoTracker.Lib.HexText
/-!
# Byte strings

Little- and big-endian numbers, the hexadecimal text of a byte string, the compact size that prefixes
a counted list, and where in a buffer a reader stands.
-/

namespace ByteString

/-- The two hexadecimal digits of each byte. -/
def toHex (bytes : List UInt8) : List Char := bytes.flatMap fun byte => HexText.write 2 byte.toNat

/-- The bytes of a hexadecimal text, up to the first pair that is not one. -/
def ofHex : List Char → List UInt8
  | high :: low :: rest =>
      match HexText.read [high, low] with
      | some byte => UInt8.ofNat byte :: ofHex rest
      | none => []
  | _ => []

@[simp]
theorem toHex_append (first second : List UInt8) :
    toHex (first ++ second) = toHex first ++ toHex second := List.flatMap_append

@[simp]
theorem length_toHex (bytes : List UInt8) : (toHex bytes).length = 2 * bytes.length := by
  induction bytes with
  | nil => rfl
  | cons byte rest ih =>
      rw [toHex, List.flatMap_cons, List.length_append, HexText.length_write, List.length_cons]
      rw [toHex] at ih
      omega

theorem toHex_take (bytes : List UInt8) (n : Nat) :
    (toHex bytes).take (2 * n) = toHex (bytes.take n) := by
  by_cases hn : n ≤ bytes.length
  · have hsplit : toHex bytes = toHex (bytes.take n) ++ toHex (bytes.drop n) := by
      rw [← toHex_append, List.take_append_drop]
    have hlength : (toHex (bytes.take n)).length = 2 * n := by
      rw [length_toHex, List.length_take, Nat.min_eq_left hn]
    rw [hsplit, ← hlength, List.take_left]
  · have hle : bytes.length ≤ n := by omega
    rw [List.take_of_length_le hle, List.take_of_length_le (by rw [length_toHex]; omega)]

theorem toHex_drop (bytes : List UInt8) (n : Nat) :
    (toHex bytes).drop (2 * n) = toHex (bytes.drop n) := by
  have hsplit : toHex (bytes.take n) ++ toHex (bytes.drop n) = toHex bytes := by
    rw [← toHex_append, List.take_append_drop]
  have hsplit' : toHex (bytes.take n) ++ (toHex bytes).drop (2 * n) = toHex bytes := by
    rw [← toHex_take, List.take_append_drop]
  exact List.append_cancel_left (hsplit'.trans hsplit.symm)

/-- **Hexadecimal text gives its bytes back.** -/
theorem ofHex_toHex (bytes : List UInt8) : ofHex (toHex bytes) = bytes := by
  induction bytes with
  | nil => rfl
  | cons byte rest ih =>
      have hpair : toHex (byte :: rest) = HexText.write 2 byte.toNat ++ toHex rest := rfl
      have hread := HexText.read_write (show byte.toNat < 16 ^ 2 from byte.toNat_lt)
      simp only [HexText.write, List.nil_append, List.cons_append] at hpair hread
      rw [hpair, ofHex, hread]
      simp only [UInt8.ofNat_toNat, ih]

/-! ### Texts of lower-case digits -/

/-- One of the digits that are written. -/
def IsDigit (c : Char) : Prop := ∃ d < 16, c = Nat.digitChar d

theorem toHex_singleton (byte : UInt8) : toHex [byte] = HexText.write 2 byte.toNat :=
  List.append_nil _

/-- Two digits stand for a byte that is written as them. -/
theorem read_pair {high low : Char} (hhigh : IsDigit high) (hlow : IsDigit low) :
    ∃ byte, HexText.read [high, low] = some byte ∧ toHex [UInt8.ofNat byte] = [high, low] := by
  obtain ⟨d, hd, rfl⟩ := hhigh
  obtain ⟨e, he, rfl⟩ := hlow
  have hlt : 16 * d + e < 16 ^ 2 := by omega
  have hwrite : HexText.write 2 (16 * d + e) = [Nat.digitChar d, Nat.digitChar e] := by
    have hfst : (16 * d + e) / 16 % 16 = d := by omega
    have hsnd : (16 * d + e) % 16 = e := by omega
    simp only [HexText.write, List.nil_append, List.cons_append, hfst, hsnd]
  refine ⟨16 * d + e, ?_, ?_⟩
  · rw [← hwrite]
    exact HexText.read_write hlt
  · rw [toHex_singleton, UInt8.toNat_ofNat', Nat.mod_eq_of_lt (by omega), hwrite]

/-- **A text of digit pairs gives itself back.** -/
theorem toHex_ofHex {text : List Char} {n : Nat} (hlength : text.length = 2 * n)
    (hdigits : ∀ c ∈ text, IsDigit c) : toHex (ofHex text) = text ∧ (ofHex text).length = n := by
  induction n generalizing text with
  | zero =>
      obtain rfl := List.eq_nil_of_length_eq_zero hlength
      exact ⟨rfl, rfl⟩
  | succ n ih =>
      rcases text with _ | ⟨high, _ | ⟨low, rest⟩⟩
      · rw [List.length_nil] at hlength
        omega
      · rw [List.length_singleton] at hlength
        omega
      · rw [List.length_cons, List.length_cons] at hlength
        obtain ⟨byte, hread, hwrite⟩ := read_pair (hdigits high List.mem_cons_self)
          (hdigits low (List.mem_cons_of_mem _ List.mem_cons_self))
        have hpairs : rest.length = 2 * n := by omega
        obtain ⟨hrest, hcount⟩ := ih hpairs fun c hmem =>
          hdigits c (List.mem_cons_of_mem _ (List.mem_cons_of_mem _ hmem))
        have hstep : ofHex (high :: low :: rest) = [UInt8.ofNat byte] ++ ofHex rest := by
          rw [ofHex, hread]
          rfl
        rw [hstep, toHex_append, hwrite, hrest, List.length_append, hcount]
        exact ⟨rfl, Nat.add_comm 1 n⟩

theorem isDigit_of_mem_toHex {bytes : List UInt8} {c : Char} (hmem : c ∈ toHex bytes) :
    IsDigit c := by
  obtain ⟨byte, -, hpair⟩ := List.mem_flatMap.mp hmem
  simp only [HexText.write, List.nil_append, List.cons_append, List.mem_cons, List.not_mem_nil,
    or_false] at hpair
  rcases hpair with rfl | rfl
  · exact ⟨_, Nat.mod_lt _ (by decide), rfl⟩
  · exact ⟨_, Nat.mod_lt _ (by decide), rfl⟩

theorem length_ofHex_le (text : List Char) : 2 * (ofHex text).length ≤ text.length := by
  induction text using ofHex.induct with
  | case1 high low rest byte hread ih =>
      rw [ofHex, hread, List.length_cons, List.length_cons, List.length_cons]
      omega
  | case2 high low rest hread =>
      rw [ofHex, hread]
      exact Nat.zero_le _
  | case3 text hshort =>
      rw [ofHex]
      · exact Nat.zero_le _
      · exact hshort

/-! ### Little-endian numbers -/

/-- The number that bytes stand for, the lowest first. -/
def ofLE : List UInt8 → Nat
  | [] => 0
  | byte :: rest => byte.toNat + 256 * ofLE rest

/-- The lowest `width` bytes of a number. -/
def toLE : Nat → Nat → List UInt8
  | 0, _ => []
  | width + 1, n => UInt8.ofNat n :: toLE width (n / 256)

@[simp]
theorem length_toLE (width n : Nat) : (toLE width n).length = width := by
  induction width generalizing n with
  | zero => rfl
  | succ width ih => rw [toLE, List.length_cons, ih]

theorem ofLE_toLE (width n : Nat) : ofLE (toLE width n) = n % 256 ^ width := by
  induction width generalizing n with
  | zero => rw [toLE, ofLE, Nat.pow_zero, Nat.mod_one]
  | succ width ih =>
      have hstep : n % 256 ^ (width + 1) = n % 256 + 256 * (n / 256 % 256 ^ width) := by
        rw [Nat.pow_succ', Nat.mod_mul]
      rw [toLE, ofLE, ih, UInt8.toNat_ofNat', hstep]

theorem toLE_add (low high n : Nat) :
    toLE (low + high) n = toLE low n ++ toLE high (n / 256 ^ low) := by
  induction low generalizing n with
  | zero => rw [Nat.zero_add, Nat.pow_zero, Nat.div_one, toLE, List.nil_append]
  | succ low ih =>
      rw [Nat.succ_add, toLE, ih, toLE, List.cons_append, Nat.pow_succ', Nat.div_div_eq_div_mul]

theorem ofLE_lt (bytes : List UInt8) : ofLE bytes < 256 ^ bytes.length := by
  induction bytes with
  | nil => exact Nat.one_pos
  | cons byte rest ih =>
      have hbyte := byte.toNat_lt
      rw [ofLE, List.length_cons, Nat.pow_succ']
      omega

theorem toLE_ofLE (bytes : List UInt8) : toLE bytes.length (ofLE bytes) = bytes := by
  induction bytes with
  | nil => rfl
  | cons byte rest ih =>
      have hbyte := byte.toNat_lt
      have hlow : UInt8.ofNat (byte.toNat + 256 * ofLE rest) = byte := by
        apply UInt8.toNat_inj.mp
        rw [UInt8.toNat_ofNat']
        omega
      have hhigh : (byte.toNat + 256 * ofLE rest) / 256 = ofLE rest := by omega
      rw [List.length_cons, ofLE, toLE, hlow, hhigh, ih]

/-! ### Big-endian numbers -/

/-- The number that bytes stand for, the highest first. -/
def ofBE (bytes : List UInt8) : Nat := ofLE bytes.reverse

/-- The lowest `width` bytes of a number, the highest of them first. -/
def toBE (width n : Nat) : List UInt8 := (toLE width n).reverse

@[simp]
theorem length_toBE (width n : Nat) : (toBE width n).length = width := by
  rw [toBE, List.length_reverse, length_toLE]

theorem ofBE_toBE (width n : Nat) : ofBE (toBE width n) = n % 256 ^ width := by
  rw [ofBE, toBE, List.reverse_reverse, ofLE_toLE]

theorem ofBE_toBE_of_lt {width n : Nat} (hfits : n < 256 ^ width) : ofBE (toBE width n) = n := by
  rw [ofBE_toBE, Nat.mod_eq_of_lt hfits]

theorem ofBE_lt (bytes : List UInt8) : ofBE bytes < 256 ^ bytes.length := by
  rw [← List.length_reverse]
  exact ofLE_lt bytes.reverse

theorem toBE_ofBE {bytes : List UInt8} {width : Nat} (hlength : bytes.length = width) :
    toBE width (ofBE bytes) = bytes := by
  rw [← hlength, toBE, ofBE, ← List.length_reverse, toLE_ofLE, List.reverse_reverse]

theorem toBE_succ (width n : Nat) :
    toBE (width + 1) n = toBE width (n / 256) ++ [UInt8.ofNat n] := by
  rw [toBE, toLE, List.reverse_cons, ← toBE]

/-- The digits of a number are the digits of its bytes. -/
theorem toHex_toBE (width n : Nat) : toHex (toBE width n) = HexText.write (2 * width) n := by
  induction width generalizing n with
  | zero => rfl
  | succ width ih =>
      have hdigits : toHex [UInt8.ofNat n] = HexText.write 2 (UInt8.ofNat n).toNat :=
        List.append_nil _
      have hlow : n % 256 % 16 = n % 16 := by omega
      have hhigh : n % 256 / 16 % 16 = n / 16 % 16 := by omega
      have hrest : HexText.write (2 * width + 2) n = HexText.write (2 * width) (n / 256) ++
          [Nat.digitChar (n / 16 % 16)] ++ [Nat.digitChar (n % 16)] := by
        rw [HexText.write, HexText.write, Nat.div_div_eq_div_mul]
      rw [toBE_succ, toHex_append, ih, hdigits, UInt8.toNat_ofNat', Nat.mul_succ, hrest]
      simp only [HexText.write, List.nil_append, List.append_assoc, hlow, hhigh]

/-! ### Signed numbers -/

/-- The lowest `width` bytes of an integer in two's complement. -/
def toIntBE (width : Nat) (i : Int) : List UInt8 := toBE width (i % 256 ^ width).toNat

/-- The integer that bytes in two's complement stand for. -/
def ofIntBE (bytes : List UInt8) : Int :=
  if 2 * ofBE bytes < 256 ^ bytes.length then ofBE bytes
  else (ofBE bytes : Int) - 256 ^ bytes.length

@[simp]
theorem length_toIntBE (width : Nat) (i : Int) : (toIntBE width i).length = width :=
  length_toBE _ _

theorem ofIntBE_toIntBE {width : Nat} {i : Int} (hlow : -(256 ^ width) ≤ 2 * i)
    (hhigh : 2 * i < 256 ^ width) : ofIntBE (toIntBE width i) = i := by
  obtain ⟨bound, hbound⟩ : ∃ bound : Nat, 256 ^ width = bound := ⟨_, rfl⟩
  have hcast : (256 : Int) ^ width = bound := by exact_mod_cast hbound
  rw [hcast] at hlow hhigh
  have hpos : 0 < bound := hbound ▸ Nat.pow_pos (by decide)
  have hmod : (i % (bound : Int)).toNat < bound := by
    have := Int.emod_lt_of_pos i (show (0 : Int) < bound by omega)
    have := Int.emod_nonneg i (show (bound : Int) ≠ 0 by omega)
    omega
  have hread : ofBE (toIntBE width i) = (i % (bound : Int)).toNat := by
    rw [toIntBE, hcast]
    exact ofBE_toBE_of_lt (hbound ▸ hmod)
  rw [ofIntBE, hread, length_toIntBE, hbound, hcast]
  by_cases hneg : i < 0
  · have hwrap : i % (bound : Int) = i + bound := by
      rw [← Int.add_emod_right]
      exact Int.emod_eq_of_lt (by omega) (by omega)
    rw [hwrap]
    split_ifs <;> omega
  · have hsame : i % (bound : Int) = i := Int.emod_eq_of_lt (by omega) (by omega)
    rw [hsame]
    split_ifs <;> omega

/-! ### Compact sizes -/

/-- A count in one, three, five or nine bytes. -/
def compactSize (n : Nat) : List UInt8 :=
  if n < 0xFD then [UInt8.ofNat n]
  else if n ≤ 0xFFFF then 0xFD :: toLE 2 n
  else if n ≤ 0xFFFFFFFF then 0xFE :: toLE 4 n
  else 0xFF :: toLE 8 n

theorem compactSize_ne_nil (n : Nat) : compactSize n ≠ [] := by
  unfold compactSize
  split_ifs <;> exact List.cons_ne_nil _ _

/-- The first byte of a count that takes one byte. -/
theorem compactSize_byte {n : Nat} (hn : n < 0xFD) :
    (UInt8.ofNat n).toNat = n ∧ UInt8.ofNat n < 0xFD := by
  have hvalue : (UInt8.ofNat n).toNat = n := UInt8.toNat_ofNat_of_lt (Nat.lt_trans hn (by decide))
  refine ⟨hvalue, ?_⟩
  rw [UInt8.lt_iff_toNat_lt, hvalue]
  exact hn

/-- No positive count starts with a zero byte. -/
theorem compactSize_head_ne_zero {n : Nat} (hpos : 0 < n) :
    ∃ byte rest, compactSize n = byte :: rest ∧ byte ≠ 0 := by
  unfold compactSize
  split_ifs with hone
  · refine ⟨UInt8.ofNat n, [], rfl, fun hzero => ?_⟩
    have hvalue : (UInt8.ofNat n).toNat = 0 := by
      rw [hzero]
      rfl
    rw [UInt8.toNat_ofNat'] at hvalue
    omega
  · exact ⟨0xFD, toLE 2 n, rfl, by decide⟩
  · exact ⟨0xFE, toLE 4 n, rfl, by decide⟩
  · exact ⟨0xFF, toLE 8 n, rfl, by decide⟩

/-! ### Where a reader stands -/

/-- `tail` is what is left of `buf` from `offset` on. -/
def At (buf : List UInt8) (offset : Nat) (tail : List UInt8) : Prop :=
  ∃ before, buf = before ++ tail ∧ before.length = offset

namespace At

variable {buf tail bytes : List UInt8} {offset : Nat}

theorem start (buf : List UInt8) : At buf 0 buf := ⟨[], rfl, rfl⟩

/-- Moving past bytes that stand there. -/
theorem skip (hat : At buf offset (bytes ++ tail)) : At buf (offset + bytes.length) tail := by
  obtain ⟨before, rfl, rfl⟩ := hat
  exact ⟨before ++ bytes, (List.append_assoc _ _ _).symm, List.length_append⟩

theorem skip_of_length (hat : At buf offset (bytes ++ tail)) {n : Nat} (hn : bytes.length = n) :
    At buf (offset + n) tail := hn ▸ hat.skip

theorem next {byte : UInt8} {rest : List UInt8} (hat : At buf offset (byte :: rest)) :
    At buf (offset + 1) rest := by
  obtain ⟨before, rfl, rfl⟩ := hat
  exact ⟨before ++ [byte], by rw [List.append_assoc]; rfl, List.length_append⟩

theorem length_eq (hat : At buf offset tail) : offset + tail.length = buf.length := by
  obtain ⟨before, rfl, rfl⟩ := hat
  rw [List.length_append]

theorem drop_eq (hat : At buf offset tail) : buf.drop offset = tail := by
  obtain ⟨before, rfl, rfl⟩ := hat
  exact List.drop_left

theorem getElem?_eq (hat : At buf offset tail) : buf[offset]? = tail.head? := by
  obtain ⟨before, rfl, rfl⟩ := hat
  rw [List.getElem?_append_right le_rfl, Nat.sub_self, List.head?_eq_getElem?]

end At

/-! ### Readers that move past what they read -/

variable {ε : Type}

/-- The number in `width` little-endian bytes, which the buffer may not hold. -/
def readLE (outOfRange : ε) (buf : List UInt8) (width offset : Nat) : Except ε Nat :=
  if offset + width ≤ buf.length then .ok (ofLE ((buf.drop offset).take width))
  else .error outOfRange

section ReadLE

variable {outOfRange : ε} {buf tail : List UInt8} {offset width n : Nat}

theorem readLE_ok (hle : offset + width ≤ buf.length) :
    ∃ value, readLE outOfRange buf width offset = .ok value := ⟨_, if_pos hle⟩

theorem readLE_of_at (hat : At buf offset (toLE width n ++ tail)) :
    readLE outOfRange buf width offset = .ok (n % 256 ^ width) := by
  have hlength := hat.length_eq
  rw [List.length_append, length_toLE] at hlength
  have htake : (toLE width n ++ tail).take width = toLE width n :=
    List.take_left' (length_toLE width n)
  rw [readLE, if_pos (by omega), hat.drop_eq, htake, ofLE_toLE]

/-- A number that fits its bytes is read back. -/
theorem readLE_of_fits (hat : At buf offset (toLE width n ++ tail)) (hfits : n < 256 ^ width) :
    readLE outOfRange buf width offset = .ok n := by
  rw [readLE_of_at hat, Nat.mod_eq_of_lt hfits]

end ReadLE

/-- `read` moves past `bytes` wherever in `buf` they stand. -/
def Skips (buf : List UInt8) (read : Nat → Except ε Nat) (bytes : List UInt8) : Prop :=
  ∀ offset tail, At buf offset (bytes ++ tail) → read offset = .ok (offset + bytes.length)

namespace Skips

variable {buf first second : List UInt8} {f g : Nat → Except ε Nat}

theorem pure : Skips buf (fun offset => (.ok offset : Except ε Nat)) [] := fun _ _ _ => rfl

/-- One reader after the other. -/
theorem bind (hf : Skips buf f first) (hg : Skips buf g second) :
    Skips buf (fun offset => f offset >>= g) (first ++ second) := by
  intro offset tail hat
  rw [List.append_assoc] at hat
  simp only [hf offset _ hat]
  rw [List.length_append, ← Nat.add_assoc]
  exact hg _ tail hat.skip

end Skips

/-- The rounds of a loop over `count` items. -/
def skipTimes (skip : Nat → Except ε Nat) : Nat → Nat → Except ε Nat
  | 0, offset => .ok offset
  | count + 1, offset => do
      let offset ← skip offset
      skipTimes skip count offset

/-- How many rounds a loop makes before it ends or fails. -/
def rounds (skip : Nat → Except ε Nat) : Nat → Nat → Nat
  | 0, _ => 0
  | count + 1, offset =>
      match skip offset with
      | .ok next => rounds skip count next + 1
      | .error _ => 1

/-- A loop moves past all its items when a round moves past one. -/
theorem Skips.times {α : Type*} {buf : List UInt8} {skip : Nat → Except ε Nat}
    {serialize : α → List UInt8} {items : List α}
    (hskip : ∀ item ∈ items, Skips buf skip (serialize item)) :
    Skips buf (skipTimes skip items.length) (items.flatMap serialize) := by
  induction items with
  | nil => exact Skips.pure
  | cons item rest ih =>
      exact (hskip item List.mem_cons_self).bind
        (ih fun other hmem => hskip other (List.mem_cons_of_mem _ hmem))

/-- From inside the buffer, `read` moves on by `least` bytes or more and stays inside, or fails as
`fails` allows. -/
def Walks (buf : List UInt8) (fails : ε → Prop) (least : Nat) (read : Nat → Except ε Nat) : Prop :=
  ∀ offset ≤ buf.length, match read offset with
    | .ok next => offset + least ≤ next ∧ next ≤ buf.length
    | .error e => fails e

namespace Walks

variable {buf : List UInt8} {fails : ε → Prop} {least more : Nat} {f g : Nat → Except ε Nat}

theorem ok (hwalks : Walks buf fails least f) {offset next : Nat} (hle : offset ≤ buf.length)
    (hrun : f offset = .ok next) : offset + least ≤ next ∧ next ≤ buf.length := by
  have := hwalks offset hle
  rwa [hrun] at this

theorem error (hwalks : Walks buf fails least f) {offset : Nat} {e : ε} (hle : offset ≤ buf.length)
    (hrun : f offset = .error e) : fails e := by
  have := hwalks offset hle
  rwa [hrun] at this

theorem bind (hf : Walks buf fails least f) (hg : Walks buf fails more g) :
    Walks buf fails (least + more) (fun offset => f offset >>= g) := by
  intro offset hle
  cases hfirst : f offset with
  | error e =>
      simp only [hfirst, Bind.bind, Except.bind]
      exact hf.error hle hfirst
  | ok next =>
      obtain ⟨hmove, hinside⟩ := hf.ok hle hfirst
      simp only [hfirst, Bind.bind, Except.bind]
      cases hsecond : g next with
      | error e => exact hg.error hinside hsecond
      | ok last =>
          obtain ⟨hmove', hinside'⟩ := hg.ok hinside hsecond
          exact ⟨by omega, hinside'⟩

theorem mono (hf : Walks buf fails least f) (hle : more ≤ least) : Walks buf fails more f := by
  intro offset hinside
  have hwalk := hf offset hinside
  cases hrun : f offset with
  | error e =>
      rw [hrun] at hwalk
      exact hwalk
  | ok next =>
      rw [hrun] at hwalk
      exact ⟨by have := hwalk.1; omega, hwalk.2⟩

theorem times (hf : Walks buf fails least f) (count : Nat) :
    Walks buf fails 0 (skipTimes f count) := by
  induction count with
  | zero =>
      intro offset hle
      exact ⟨le_rfl, hle⟩
  | succ count ih => exact (hf.bind ih).mono (Nat.zero_le _)

/-- **A loop ends**: no round more than there are bytes, and one that fails. -/
theorem rounds_le (hf : Walks buf fails 1 f) (count : Nat) {offset : Nat}
    (hle : offset ≤ buf.length) : rounds f count offset ≤ buf.length - offset + 1 := by
  induction count generalizing offset with
  | zero => exact Nat.zero_le _
  | succ count ih =>
      rw [rounds]
      cases hrun : f offset with
      | error e => exact Nat.le_add_left _ _
      | ok next =>
          obtain ⟨hmove, hinside⟩ := hf.ok hle hrun
          have := ih hinside
          dsimp only
          omega

end Walks

end ByteString

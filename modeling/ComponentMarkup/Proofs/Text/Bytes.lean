import ComponentMarkup.Text.Basic
import Mathlib.Data.Char
import Mathlib.Data.List.Lex
import Mathlib.Tactic.NormNum

/-!
# The order of UTF-8

The bytes of a text stand in the order of its characters: of two texts the one that comes first by
code points comes first by bytes too. So texts with the same bytes are the same.

A character takes one to four bytes. The first byte holds a mark, which grows with the number of
bytes, and the leading bits of the code point; every other byte holds six bits.
-/

namespace ComponentMarkup.Text

/-- A number as a marked byte with `count` bytes of six bits behind it. -/
def multibyte (mark : Nat) : (count : Nat) → Nat → List UInt8
  | 0, n => [UInt8.ofNat (mark + n)]
  | count + 1, n => multibyte mark count (n / 64) ++ [UInt8.ofNat (0x80 + n % 64)]

/-- The first byte, as a number. -/
def leadingByte (mark count n : Nat) : Nat := mark + n / 64 ^ count

theorem leadingByte_succ (mark count n : Nat) :
    leadingByte mark (count + 1) n = leadingByte mark count (n / 64) := by
  rw [leadingByte, leadingByte, Nat.div_div_eq_div_mul, Nat.pow_succ']

theorem exists_multibyte_eq_cons (mark count n : Nat) :
    ∃ behind, multibyte mark count n = UInt8.ofNat (leadingByte mark count n) :: behind := by
  induction count generalizing n with
  | zero => exact ⟨[], by rw [multibyte, leadingByte, Nat.pow_zero, Nat.div_one]⟩
  | succ count ih =>
    obtain ⟨behind, hbehind⟩ := ih (n / 64)
    exact ⟨behind ++ [UInt8.ofNat (0x80 + n % 64)], by
      rw [multibyte, hbehind, leadingByte_succ, List.cons_append]⟩

theorem cons_ofNat_lt_cons {m n : Nat} (h : m < n) (hn : n < 256) (s t : List UInt8) :
    UInt8.ofNat m :: s < UInt8.ofNat n :: t := by
  apply List.Lex.rel
  rw [UInt8.lt_iff_toNat_lt, UInt8.toNat_ofNat', UInt8.toNat_ofNat']
  omega

theorem multibyte_append_lt {mark count m n : Nat} (hbyte : leadingByte mark count n < 256)
    (h : m < n) (s t : List UInt8) :
    multibyte mark count m ++ s < multibyte mark count n ++ t := by
  induction count generalizing m n s t with
  | zero =>
    rw [leadingByte, Nat.pow_zero, Nat.div_one] at hbyte
    exact cons_ofNat_lt_cons (Nat.add_lt_add_left h mark) hbyte s t
  | succ count ih =>
    rw [multibyte, multibyte, List.append_assoc, List.append_assoc]
    rw [leadingByte_succ] at hbyte
    rcases Nat.lt_or_ge (m / 64) (n / 64) with hfirst | hfirst
    · exact ih hbyte hfirst _ _
    · have heq : m / 64 = n / 64 := by omega
      rw [heq]
      apply List.append_left_lt
      exact cons_ofNat_lt_cons (by omega) (by omega) s t

/-- The mark of the first byte of a code point, and the number of bytes behind it. -/
def shape (n : Nat) : Nat × Nat :=
  if n ≤ 0x7f then (0, 0)
  else if n ≤ 0x7ff then (0xc0, 1)
  else if n ≤ 0xffff then (0xe0, 2)
  else (0xf0, 3)

theorem leadingByte_shape_lt {n : Nat} (h : n < 0x110000) :
    leadingByte (shape n).1 (shape n).2 n < 256 := by
  unfold leadingByte shape
  split_ifs <;> norm_num <;> omega

/-- The first byte tells how many bytes there are. -/
theorem shape_eq_or_leadingByte_lt {m n : Nat} (h : m < n) :
    shape m = shape n ∨
      leadingByte (shape m).1 (shape m).2 m < leadingByte (shape n).1 (shape n).2 n := by
  unfold leadingByte shape
  split_ifs <;> norm_num <;> omega

theorem toNat_lt (c : Char) : c.toNat < 0x110000 := by
  have hvalid := c.valid
  simp only [UInt32.isValidChar, Nat.isValidChar] at hvalid
  show c.val.toNat < _
  omega

theorem utf8EncodeChar_eq_multibyte (c : Char) :
    String.utf8EncodeChar c = multibyte (shape c.toNat).1 (shape c.toNat).2 c.toNat := by
  have hbound := toNat_lt c
  have hcode : c.val.toNat = c.toNat := rfl
  unfold String.utf8EncodeChar shape
  rw [hcode]
  generalize c.toNat = n at hbound
  dsimp only
  split_ifs with h1 h2 h3
  · simp [multibyte]
  · have hfirst : n / 64 % 32 = n / 64 := Nat.mod_eq_of_lt (by omega)
    simp [multibyte, hfirst, Nat.add_comm]
  · have hfirst : n / 4096 % 16 = n / 4096 := Nat.mod_eq_of_lt (by omega)
    simp [multibyte, hfirst, Nat.div_div_eq_div_mul, Nat.add_comm]
  · have hfirst : n / 262144 % 8 = n / 262144 := Nat.mod_eq_of_lt (by omega)
    simp [multibyte, hfirst, Nat.div_div_eq_div_mul, Nat.add_comm]

theorem utf8EncodeChar_append_lt {c d : Char} (h : c < d) (s t : List UInt8) :
    String.utf8EncodeChar c ++ s < String.utf8EncodeChar d ++ t := by
  have hcode : c.toNat < d.toNat := h
  have hbyte := leadingByte_shape_lt (toNat_lt d)
  rw [utf8EncodeChar_eq_multibyte, utf8EncodeChar_eq_multibyte]
  rcases shape_eq_or_leadingByte_lt hcode with heq | hlt
  · rw [heq]
    exact multibyte_append_lt hbyte hcode s t
  · obtain ⟨_, hc⟩ := exists_multibyte_eq_cons (shape c.toNat).1 (shape c.toNat).2 c.toNat
    obtain ⟨_, hd⟩ := exists_multibyte_eq_cons (shape d.toNat).1 (shape d.toNat).2 d.toNat
    rw [hc, hd]
    exact cons_ofNat_lt_cons hlt hbyte _ _

/-- Texts and their bytes stand in the same order. -/
theorem bytes_lt_bytes {a b : Text} (h : a < b) : bytes a < bytes b := by
  induction h with
  | @nil c text =>
    rw [bytes, bytes, List.flatMap_cons]
    cases hc : String.utf8EncodeChar c with
    | nil => exact absurd hc String.utf8EncodeChar_ne_nil
    | cons => exact List.Lex.nil
  | @cons c a b _ ih =>
    rw [bytes, bytes, List.flatMap_cons, List.flatMap_cons]
    exact List.append_left_lt ih
  | @rel c a d b h =>
    rw [bytes, bytes, List.flatMap_cons, List.flatMap_cons]
    exact utf8EncodeChar_append_lt h _ _

/-- Texts with the same bytes are the same. -/
theorem bytes_inj {a b : Text} (h : bytes a = bytes b) : a = b := by
  rcases lt_trichotomy a b with hlt | heq | hlt
  · exact absurd (bytes_lt_bytes hlt) (h ▸ List.lt_irrefl _)
  · exact heq
  · exact absurd (bytes_lt_bytes hlt) (h ▸ List.lt_irrefl _)

end ComponentMarkup.Text

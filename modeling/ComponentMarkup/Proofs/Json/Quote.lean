import ComponentMarkup.Json.Literal
import Mathlib.Data.Nat.Basic
import Mathlib.Data.Option.Basic

/-!
# String literals read back

A literal may be written in several ways: a character may be escaped, and the digits of a code may
be of either case. It is read back as it was, whatever follows it. A quoted text is one way to write
the literal of that text. So it ends in one place only, and two of them differ if the texts do.
-/

namespace ComponentMarkup.Json

/-- The element of a literal that a character is read back as. -/
def unitOf (c : Char) : Unit :=
  if 0x20 ≤ c.toNat ∨ c = '\x08' ∨ c = '\x0c' ∨ c = '\n' ∨ c = '\r' ∨ c = '\t' then .char c
  else .escaped c.toNat

/-- The literal that a text is read back as. -/
def literalOf (text : Text) : Literal := text.map unitOf

namespace Literal

theorem unit?_hexDigit {n : Nat} (h : n < 0x20) :
    unit? '0' '0' (Text.hexDigit (n / 16)) (Text.hexDigit (n % 16)) = some n := by
  revert n
  decide

theorem read?_char {c : Char} (hquote : c ≠ '"') (hslash : c ≠ '\\') (hcode : ¬c.toNat < 0x20)
    (rest : Text) :
    read? (c :: rest) =
      (read? rest).map fun (literal, after) => (.char c :: literal, after) := by
  rw [read?]
  · simp [hcode, hslash]
  · exact hquote
  · exact fun _ _ _ _ _ h _ ↦ hslash h
  · exact fun _ _ h _ ↦ hslash h

end Literal

/-! ## Literals as they are written -/

/-- How an element of a literal is written: as it is if it needs no escape, behind a backslash, or
as the code of a unit. -/
inductive Unit.Writes : Unit → Text → Prop
  | plain {c : Char} (hquote : c ≠ '"') (hslash : c ≠ '\\') (hcode : ¬c.toNat < 0x20) :
      Writes (.char c) [c]
  | short {mark c : Char} (h : Literal.shortEscape? mark = some c) : Writes (.char c) ['\\', mark]
  | code {a b c d : Char} {code : Nat} (h : Literal.unit? a b c d = some code) :
      Writes (.escaped code) ['\\', 'u', a, b, c, d]

/-- How a literal is written between its quotes. -/
inductive Literal.Writes : Literal → Text → Prop
  | nil : Writes [] []
  | cons {unit : Unit} {literal : Literal} {front rest : Text} (h : unit.Writes front)
      (hrest : Writes literal rest) : Writes (unit :: literal) (front ++ rest)

/-- A written literal with its quotes. -/
def Literal.quoted (text : Text) : Text := '"' :: text ++ ['"']

theorem Unit.Writes.read?_append {unit : Unit} {text : Text} (h : unit.Writes text)
    (rest : Text) :
    Literal.read? (text ++ rest) =
      (Literal.read? rest).map fun (literal, after) ↦ (unit :: literal, after) := by
  cases h with
  | plain hquote hslash hcode => exact Literal.read?_char hquote hslash hcode rest
  | @short mark _ h =>
    have hmark : mark ≠ 'u' := by
      rintro rfl
      simp [Literal.shortEscape?] at h
    simp [Literal.read?, hmark, h]
  | code h => simp [Literal.read?, h]

theorem Literal.Writes.read?_append {literal : Literal} {text : Text} (h : literal.Writes text)
    (rest : Text) : Literal.read? (text ++ '"' :: rest) = some (literal, rest) := by
  induction h with
  | nil => rfl
  | cons hunit _ ih => rw [List.append_assoc, hunit.read?_append, ih, Option.map_some]

/-- The shortest escapes are among the ways to write a character. -/
theorem writes_escapeChar (c : Char) : (unitOf c).Writes (escapeChar c) := by
  by_cases hshort : c = '"' ∨ c = '\\' ∨ c = '\x08' ∨ c = '\x0c' ∨ c = '\n' ∨ c = '\r' ∨ c = '\t'
  · rcases hshort with rfl | rfl | rfl | rfl | rfl | rfl | rfl <;> exact .short rfl
  · simp only [not_or] at hshort
    obtain ⟨hquote, hslash, hback, hform, hline, hreturn, htab⟩ := hshort
    by_cases hcode : c.toNat < 0x20
    · have hunit : unitOf c = .escaped c.toNat := by
        simp [unitOf, hback, hform, hline, hreturn, htab, hcode]
      have htext : escapeChar c =
          ['\\', 'u', '0', '0', Text.hexDigit (c.toNat / 16), Text.hexDigit (c.toNat % 16)] := by
        simp [escapeChar, hquote, hslash, hback, hform, hline, hreturn, htab, hcode]
      rw [hunit, htext]
      exact .code (Literal.unit?_hexDigit hcode)
    · have hunit : unitOf c = .char c := by simp [unitOf, Nat.le_of_not_lt hcode]
      have htext : escapeChar c = [c] := by
        simp [escapeChar, hquote, hslash, hback, hform, hline, hreturn, htab, hcode]
      rw [hunit, htext]
      exact .plain hquote hslash hcode

theorem Literal.writes_literalOf (text : Text) :
    (literalOf text).Writes (text.flatMap escapeChar) := by
  induction text with
  | nil => exact .nil
  | cons c text ih => exact .cons (writes_escapeChar c) ih

/-! ## Quoted texts -/

namespace Literal

theorem read?_escapeChar (c : Char) (rest : Text) :
    read? (escapeChar c ++ rest) =
      (read? rest).map fun (literal, after) => (unitOf c :: literal, after) :=
  (writes_escapeChar c).read?_append rest

theorem read?_quoted (text rest : Text) :
    read? (text.flatMap escapeChar ++ '"' :: rest) = some (literalOf text, rest) :=
  (writes_literalOf text).read?_append rest

theorem text?_unitOf (c : Char) (rest : Literal) :
    text? (unitOf c :: rest) = (text? rest).map (c :: ·) := by
  unfold unitOf
  split_ifs with h
  · rw [text?]
  · have hcode : c.toNat < 0x20 := Nat.lt_of_not_le fun hle ↦ h (Or.inl hle)
    have hhigh : isHighSurrogate c.toNat = false := by simp [isHighSurrogate]; omega
    have hlow : isLowSurrogate c.toNat = false := by simp [isLowSurrogate]; omega
    cases rest with
    | nil => simp [text?, hhigh, hlow]
    | cons unit rest => cases unit <;> simp [text?, hhigh, hlow]

@[simp] theorem text?_literalOf (text : Text) : text? (literalOf text) = some text := by
  induction text with
  | nil => rfl
  | cons c text ih =>
    rw [literalOf, List.map_cons, text?_unitOf, ← literalOf, ih, Option.map_some]

end Literal

/-- A quoted text and where it ends are determined by any text that begins with it. -/
theorem quote_append_inj {a b s t : Text} (h : quote a ++ s = quote b ++ t) : a = b ∧ s = t := by
  have hread : Literal.read? (a.flatMap escapeChar ++ '"' :: s) =
      Literal.read? (b.flatMap escapeChar ++ '"' :: t) := by
    congr 1
    simpa [quote] using h
  rw [Literal.read?_quoted, Literal.read?_quoted, Option.some.injEq, Prod.mk.injEq] at hread
  have htext := congrArg Literal.text? hread.1
  rw [Literal.text?_literalOf, Literal.text?_literalOf, Option.some.injEq] at htext
  exact ⟨htext, hread.2⟩

end ComponentMarkup.Json

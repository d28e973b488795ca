import ComponentMarkup.Json.Record
import ComponentMarkup.Proofs.Json.Quote
import Mathlib.Data.List.Basic
import Mathlib.Tactic.IntervalCases

/-!
# Tokens and numbers read back

A text is cut into the tokens that it is written with, whatever white space stands between them. A
number may be written in several ways; each of them is read as its digits, up to where the number
ends.
-/

namespace ComponentMarkup.Json

/-- White space between tokens. -/
def IsSpacing (text : Text) : Prop := ∀ c ∈ text, Token.isSpace c = true

theorem isSpacing_nil : IsSpacing [] := List.forall_mem_nil _

/-- What may stand behind a value: nothing, white space, a comma, or a closing bracket or brace. -/
def IsBreak (text : Text) : Prop :=
  ∀ c ∈ text.head?, Token.isSpace c = true ∨ c = ',' ∨ c = ']' ∨ c = '\x7d'

theorem isBreak_nil : IsBreak [] := by
  intro c h
  simp at h

theorem isBreak_cons {c : Char} (h : c = ',' ∨ c = ']' ∨ c = '\x7d') (text : Text) :
    IsBreak (c :: text) := by
  intro d hd
  rw [List.head?_cons, Option.mem_some_iff] at hd
  rw [← hd]
  exact .inr h

theorem isBreak_append {space text : Text} (hspace : IsSpacing space) (h : IsBreak text) :
    IsBreak (space ++ text) := by
  cases space with
  | nil => exact h
  | cons c space =>
    intro d hd
    rw [List.cons_append, List.head?_cons, Option.mem_some_iff] at hd
    exact .inl (hd ▸ hspace c List.mem_cons_self)

/-! ## Tokens -/

theorem tokens?_cons {c : Char} {text after : Text} {token : Token}
    (hspace : Token.isSpace c = false) (h : Token.next? (c :: text) = some (token, after)) :
    tokens? (c :: text) = (tokens? after).map (token :: ·) := by
  have hdrop : (c :: text).dropWhile Token.isSpace = c :: text := by
    rw [List.dropWhile_cons, hspace]
    rfl
  rw [tokens?]
  split
  · rename_i heq
    rw [hdrop] at heq
    simp at heq
  · rename_i d rest heq
    rw [hdrop, List.cons.injEq] at heq
    obtain ⟨rfl, rfl⟩ := heq
    split
    · rename_i hnone
      rw [h] at hnone
      simp at hnone
    · rename_i token' after' hsome
      rw [h, Option.some.injEq, Prod.mk.injEq] at hsome
      rw [hsome.1, hsome.2]

@[simp] theorem tokens?_nil : tokens? [] = some [] := by
  rw [tokens?]
  rfl

theorem tokens?_spacing {space : Text} (h : IsSpacing space) (text : Text) :
    tokens? (space ++ text) = tokens? text := by
  have hdrop : (space ++ text).dropWhile Token.isSpace = text.dropWhile Token.isSpace :=
    List.dropWhile_append_of_pos h
  unfold tokens?
  split <;> split <;> grind

theorem Literal.Writes.tokens?_append {literal : Literal} {text : Text} (h : literal.Writes text)
    (rest : Text) :
    tokens? (Literal.quoted text ++ rest) = (tokens? rest).map (.string literal :: ·) := by
  have hquoted : Literal.quoted text ++ rest = '"' :: (text ++ '"' :: rest) := by
    simp [Literal.quoted]
  rw [hquoted]
  apply tokens?_cons rfl
  rw [Token.next?, h.read?_append, Option.map_some]

theorem tokens?_quote (text rest : Text) :
    tokens? (quote text ++ rest) = (tokens? rest).map (.string (literalOf text) :: ·) :=
  (Literal.writes_literalOf text).tokens?_append rest

theorem tokens?_punctuation {c : Char} {token : Token} (h : Token.punctuation? c = some token)
    (rest : Text) : tokens? (c :: rest) = (tokens? rest).map (token :: ·) := by
  have hc : c = '\x7b' ∨ c = '\x7d' ∨ c = '[' ∨ c = ']' ∨ c = ':' ∨ c = ',' := by
    unfold Token.punctuation? at h
    split_ifs at h <;> simp_all
  apply tokens?_cons
  · rcases hc with rfl | rfl | rfl | rfl | rfl | rfl <;> rfl
  · rcases hc with rfl | rfl | rfl | rfl | rfl | rfl <;> simp_all [Token.next?]

/-! ## Numbers -/

theorem head_toDigits_ne_zero {n : Nat} (h : 0 < n) : (Nat.toDigits 10 n).head? ≠ some '0' := by
  induction n using Nat.strong_induction_on with
  | _ n ih =>
    by_cases hn : n < 10
    · rw [Nat.toDigits_of_lt_base hn]
      revert h
      interval_cases n <;> decide
    · have hquotient : 0 < n / 10 := by omega
      rw [Nat.toDigits_of_base_le (by decide) (by omega), List.head?_append_of_ne_nil _
        Nat.toDigits_ne_nil]
      exact ih (n / 10) (by omega) hquotient

/-- The natural number that is written with its digits. -/
def Number.ofNat (n : Nat) : Number := ⟨false, Nat.toDigits 10 n, none, none⟩

theorem Number.nat?_ofNat (n : Nat) : (Number.ofNat n).nat? = some n := by
  simp [Number.nat?, Number.ofNat, Number.digitsValue, Nat.ofDigitChars_ten_toDigits]

/-- Digits that may stand in front of the point: a zero alone, or no zero first. -/
structure Number.IsWhole (digits : Text) : Prop where
  ne_nil : digits ≠ []
  isDigit : ∀ c ∈ digits, c.isDigit = true
  no_leading_zero : digits.head? = some '0' → digits = ['0']

theorem Number.isWhole_toDigits (n : Nat) : Number.IsWhole (Nat.toDigits 10 n) where
  ne_nil := Nat.toDigits_ne_nil
  isDigit _ hc := Nat.isDigit_of_mem_toDigits (by decide) (by decide) hc
  no_leading_zero hhead := by
    by_cases hn : n = 0
    · subst hn
      rfl
    · exact absurd hhead (head_toDigits_ne_zero (Nat.pos_of_ne_zero hn))

/-- How an integer is written. -/
def Number.integerText (negative : Bool) (digits : Text) : Text :=
  if negative then '-' :: digits else digits

theorem Number.IsWhole.exists_cons {digits : Text} (h : Number.IsWhole digits) (negative : Bool) :
    ∃ c text, Number.integerText negative digits = c :: text ∧ (c = '-' ∨ c.isDigit = true) := by
  cases negative with
  | true => exact ⟨'-', digits, rfl, .inl rfl⟩
  | false =>
    obtain ⟨c, text, rfl⟩ := List.exists_cons_of_ne_nil h.ne_nil
    exact ⟨c, text, rfl, .inr (h.isDigit c List.mem_cons_self)⟩

/-- Digits behind a point or in an exponent. -/
structure Number.IsDigits (digits : Text) : Prop where
  ne_nil : digits ≠ []
  isDigit : ∀ c ∈ digits, c.isDigit = true

/-- How what stands behind the point is written. -/
inductive Number.WritesFraction : Option Text → Text → Prop
  | absent : WritesFraction none []
  | digits {digits : Text} (h : IsDigits digits) : WritesFraction (some digits) ('.' :: digits)

/-- How an exponent is written: with either letter, and a plus sign may be left out. -/
inductive Number.WritesExponent : Option (Bool × Text) → Text → Prop
  | absent : WritesExponent none []
  | minus {letter : Char} {digits : Text} (hletter : letter = 'e' ∨ letter = 'E')
      (h : IsDigits digits) : WritesExponent (some (true, digits)) (letter :: '-' :: digits)
  | plus {letter : Char} {digits : Text} (hletter : letter = 'e' ∨ letter = 'E')
      (h : IsDigits digits) : WritesExponent (some (false, digits)) (letter :: '+' :: digits)
  | bare {letter : Char} {digits : Text} (hletter : letter = 'e' ∨ letter = 'E')
      (h : IsDigits digits) : WritesExponent (some (false, digits)) (letter :: digits)

/-- How a number is written. -/
inductive Number.Writes : Number → Text → Prop
  | mk {negative : Bool} {whole fractionText exponentText : Text} {fraction : Option Text}
      {exponent : Option (Bool × Text)} (hwhole : IsWhole whole)
      (hfraction : WritesFraction fraction fractionText)
      (hexponent : WritesExponent exponent exponentText) :
      Writes ⟨negative, whole, fraction, exponent⟩
        (integerText negative whole ++ fractionText ++ exponentText)

section Digits

variable {rest : Text}

theorem Number.digits?_append {digits : Text} (h : IsDigits digits)
    (hrest : ∀ c ∈ rest.head?, c.isDigit = false) :
    Number.digits? (digits ++ rest) = some (digits, rest) := by
  have htake : (digits ++ rest).takeWhile Char.isDigit = digits := by
    rw [List.takeWhile_append_of_pos h.isDigit]
    cases rest with
    | nil => simp
    | cons c text => simp [hrest c rfl]
  have hdrop : (digits ++ rest).dropWhile Char.isDigit = rest := by
    have := List.takeWhile_append_dropWhile (p := Char.isDigit) (l := digits ++ rest)
    rw [htake] at this
    exact List.append_cancel_left this
  rw [Number.digits?, htake, hdrop]
  simp [h.ne_nil]

theorem Number.IsWhole.whole?_append {digits : Text} (h : Number.IsWhole digits)
    (hrest : ∀ c ∈ rest.head?, c.isDigit = false) :
    Number.whole? (digits ++ rest) = some (digits, rest) := by
  by_cases hzero : digits.head? = some '0'
  · rw [h.no_leading_zero hzero]
    rfl
  · rw [Number.whole?]
    · exact Number.digits?_append ⟨h.ne_nil, h.isDigit⟩ hrest
    · intro tail htail
      have hhead := congrArg List.head? htail
      rw [List.head?_append_of_ne_nil _ h.ne_nil] at hhead
      exact hzero hhead

/-- No digit and nothing that a number goes on with. -/
structure Number.Ends (c : Char) : Prop where
  not_digit : c.isDigit = false
  not_point : c ≠ '.'
  not_exponent : c ≠ 'e' ∧ c ≠ 'E'

theorem Number.ends_of_isBreak (hrest : IsBreak rest) : ∀ c ∈ rest.head?, Number.Ends c := by
  intro c hc
  have hspace : Token.isSpace c = true → c = ' ' ∨ c = '\n' ∨ c = '\t' ∨ c = '\r' := by
    simp [Token.isSpace, or_assoc]
  rcases hrest c hc with h | rfl | rfl | rfl
  · rcases hspace h with rfl | rfl | rfl | rfl <;> exact ⟨rfl, by decide, by decide⟩
  all_goals exact ⟨rfl, by decide, by decide⟩

theorem Number.WritesExponent.head {exponent : Option (Bool × Text)} {text : Text}
    (h : WritesExponent exponent text) (hrest : IsBreak rest) :
    ∀ c ∈ (text ++ rest).head?, c.isDigit = false ∧ c ≠ '.' := by
  intro c hc
  have hletter : c = 'e' ∨ c = 'E' → c.isDigit = false ∧ c ≠ '.' := by
    rintro (rfl | rfl) <;> exact ⟨rfl, by decide⟩
  cases h with
  | absent => exact ⟨(Number.ends_of_isBreak hrest c hc).not_digit,
      (Number.ends_of_isBreak hrest c hc).not_point⟩
  | minus h _ => exact hletter (Option.some.inj hc ▸ h)
  | plus h _ => exact hletter (Option.some.inj hc ▸ h)
  | bare h _ => exact hletter (Option.some.inj hc ▸ h)

theorem Number.WritesExponent.exponent?_append {exponent : Option (Bool × Text)} {text : Text}
    (h : WritesExponent exponent text) (hrest : IsBreak rest) :
    Number.exponent? (text ++ rest) = some (exponent, rest) := by
  have hends : ∀ c ∈ rest.head?, c.isDigit = false :=
    fun c hc ↦ (Number.ends_of_isBreak hrest c hc).not_digit
  cases h with
  | absent =>
    cases rest with
    | nil => rfl
    | cons c rest =>
      obtain ⟨he, hE⟩ := (Number.ends_of_isBreak hrest c rfl).not_exponent
      simp [Number.exponent?, he, hE]
  | minus hletter hdigits =>
    rcases hletter with rfl | rfl <;>
      simp [Number.exponent?, Number.exponentDigits?, Number.digits?_append hdigits hends]
  | plus hletter hdigits =>
    rcases hletter with rfl | rfl <;>
      simp [Number.exponent?, Number.exponentDigits?, Number.digits?_append hdigits hends]
  | @bare _ digits hletter hdigits =>
    have hbare : Number.exponentDigits? (digits ++ rest) = some ((false, digits), rest) := by
      have hhead {c : Char} (hc : c.isDigit = false) (tail : Text) : digits ++ rest ≠ c :: tail := by
        intro heq
        obtain ⟨first, more, rfl⟩ := List.exists_cons_of_ne_nil hdigits.ne_nil
        rw [List.cons_append, List.cons.injEq] at heq
        have := hdigits.isDigit first List.mem_cons_self
        simp [heq.1, hc] at this
      rw [Number.exponentDigits?, Number.digits?_append hdigits hends]
      · rfl
      · exact fun tail ↦ hhead rfl tail
      · exact fun tail ↦ hhead rfl tail
    rcases hletter with rfl | rfl <;> simp [Number.exponent?, hbare]

theorem Number.WritesFraction.fraction?_append {fraction : Option Text} {text : Text}
    (h : WritesFraction fraction text)
    (hrest : ∀ c ∈ rest.head?, c.isDigit = false ∧ c ≠ '.') :
    Number.fraction? (text ++ rest) = some (fraction, rest) := by
  cases h with
  | absent =>
    rw [List.nil_append, Number.fraction?]
    rintro tail rfl
    exact (hrest '.' rfl).2 rfl
  | digits hdigits =>
    have hread := Number.digits?_append hdigits fun c hc ↦ (hrest c hc).1
    rw [List.cons_append, Number.fraction?, hread]
    rfl

theorem Number.WritesFraction.head {fraction : Option Text} {text : Text}
    (h : WritesFraction fraction text)
    (hrest : ∀ c ∈ rest.head?, c.isDigit = false ∧ c ≠ '.') :
    ∀ c ∈ (text ++ rest).head?, c.isDigit = false := by
  cases h with
  | absent => exact fun c hc ↦ (hrest c hc).1
  | digits _ =>
    intro c hc
    rw [← Option.some.inj hc]
    rfl

/-- A number is read up to where it ends. -/
theorem Number.Writes.read?_append {number : Number} {text : Text} (h : number.Writes text)
    (hrest : IsBreak rest) : Number.read? (text ++ rest) = some (number, rest) := by
  obtain @⟨negative, whole, fractionText, exponentText, fraction, exponent, hwhole, hfraction,
    hexponent⟩ := h
  have hbehind := hexponent.head hrest
  have hunsigned : Number.unsigned? negative (whole ++ (fractionText ++ (exponentText ++ rest))) =
      some (⟨negative, whole, fraction, exponent⟩, rest) := by
    simp [Number.unsigned?, hwhole.whole?_append (hfraction.head hbehind),
      hfraction.fraction?_append hbehind, hexponent.exponent?_append hrest]
  rw [List.append_assoc, List.append_assoc]
  cases negative with
  | true => exact hunsigned
  | false =>
    obtain ⟨c, digits, rfl⟩ := List.exists_cons_of_ne_nil hwhole.ne_nil
    have hminus : c ≠ '-' := by
      rintro rfl
      exact absurd (hwhole.isDigit '-' List.mem_cons_self) (by decide)
    rw [Number.integerText, if_neg Bool.false_ne_true, List.cons_append, Number.read?]
    · exact hunsigned
    · exact fun tail htail ↦ hminus (List.cons.inj htail).1

theorem Number.Writes.tokens?_append {number : Number} {text : Text} (h : number.Writes text)
    (hrest : IsBreak rest) :
    tokens? (text ++ rest) = (tokens? rest).map (.number number :: ·) := by
  have hread := h.read?_append hrest
  obtain ⟨hwhole, hfraction, hexponent⟩ := h
  obtain ⟨c, more, hmore, hc⟩ := hwhole.exists_cons _
  rw [hmore, List.cons_append, List.cons_append, List.cons_append] at hread ⊢
  have hne {d : Char} (hd : d.isDigit = false) (hminus : d ≠ '-') : c ≠ d := by
    rintro rfl
    rcases hc with rfl | hc
    · exact hminus rfl
    · rw [hc] at hd
      exact Bool.noConfusion hd
  have hpunctuation : Token.punctuation? c = none := by
    simp [Token.punctuation?, hne (d := '\x7b') rfl, hne (d := '\x7d') rfl, hne (d := '[') rfl,
      hne (d := ']') rfl, hne (d := ':') rfl, hne (d := ',') rfl]
  apply tokens?_cons
  · simp [Token.isSpace, hne (d := ' ') rfl, hne (d := '\n') rfl, hne (d := '\t') rfl,
      hne (d := '\r') rfl]
  · rw [Token.next?]
    · simp only [hpunctuation, hread, Option.map_some]
    · exact hne rfl (by decide)
    · exact fun _ h _ ↦ hne rfl (by decide) h
    · exact fun _ h _ ↦ hne rfl (by decide) h
    · exact fun _ h _ ↦ hne rfl (by decide) h

end Digits

end ComponentMarkup.Json

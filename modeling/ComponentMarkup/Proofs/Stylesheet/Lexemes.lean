import ComponentMarkup.Stylesheet.Read
import Mathlib.Data.List.Chain

/-!
# Texts made of lexemes

A text that is put together from whole strings and from characters that are no quotes is cut into
just these lexemes again. If no slash stands before a star outside strings, nothing in it is taken
for a comment.

What remains of a text without its comments is such a text as far as comments go: taking a comment
out brings no slash before a star, and a quote that nothing closed is closed by nothing afterwards.
-/

namespace ComponentMarkup.Stylesheet

open Text

/-- The rest of a string behind its opening quote, the closing one included. -/
inductive IsTail (quote : Char) : Text → Prop
  | close : IsTail quote [quote]
  | escape (c : Char) {text : Text} (h : IsTail quote text) : IsTail quote ('\\' :: c :: text)
  | plain {c : Char} {text : Text} (hquote : c ≠ quote) (hback : c ≠ '\\')
    (h : IsTail quote text) : IsTail quote (c :: text)

/-- A quoted string, its quotes included. -/
def IsString (text : Text) : Prop :=
  ∃ quote tail, isQuote quote = true ∧ text = quote :: tail ∧ IsTail quote tail

/-- A string with its closing quote, or a character that is no quote. -/
def Lexeme.IsWhole : Lexeme → Prop
  | quoted text => IsString text
  | plain c => isQuote c = false

/-! ## Strings -/

section Strings

variable {quote : Char}

theorem isQuote_iff {c : Char} : isQuote c = true ↔ c = '"' ∨ c = '\'' := by
  simp [isQuote]

theorem ne_backslash_of_isQuote (h : isQuote quote = true) : quote ≠ '\\' := by
  rintro rfl
  simp [isQuote] at h

theorem IsTail.getLast?_eq {tail : Text} (h : IsTail quote tail) :
    tail.getLast? = some quote := by
  induction h with
  | close => rfl
  | escape c _ ih => simp [List.getLast?_cons, ih]
  | plain _ _ _ ih => simp [List.getLast?_cons, ih]

theorem stringTail?_of_isTail (hquote : quote ≠ '\\') {tail : Text} (h : IsTail quote tail)
    (after : Text) : stringTail? quote (tail ++ after) = some (tail, after) := by
  induction h with
  | close =>
    rw [List.singleton_append, stringTail?]
    · simp
    · exact fun _ _ h ↦ absurd h hquote
  | escape c _ ih => simp [stringTail?, ih]
  | plain hc hback _ ih =>
    rw [List.cons_append, stringTail?]
    · simp [hc, hback, ih]
    · exact fun _ _ h ↦ absurd h hback

theorem isTail_of_stringTail? {text tail after : Text}
    (h : stringTail? quote text = some (tail, after)) : IsTail quote tail := by
  fun_induction stringTail? quote text generalizing tail with
  | case1 => simp at h
  | case2 c text ih =>
    simp only [Option.map_eq_some_iff, Prod.exists, Prod.mk.injEq] at h
    obtain ⟨inside, rest, hinside, rfl, rfl⟩ := h
    exact .escape c (ih hinside)
  | case3 text =>
    simp only [Option.some.injEq, Prod.mk.injEq] at h
    rw [← h.1]
    exact .close
  | case4 => simp at h
  | case5 c text _ hc hback ih =>
    simp only [Option.map_eq_some_iff, Prod.exists, Prod.mk.injEq] at h
    obtain ⟨inside, rest, hinside, rfl, rfl⟩ := h
    exact .plain hc hback (ih hinside)

theorem string?_of_isString {string : Text} (h : IsString string) (after : Text) :
    string? (string ++ after) = some (string, after) := by
  obtain ⟨quote, tail, hquote, rfl, htail⟩ := h
  have hinside := stringTail?_of_isTail (ne_backslash_of_isQuote hquote) htail after
  simp [string?, hquote, hinside]

theorem isString_of_string? {text string after : Text}
    (h : string? text = some (string, after)) : IsString string := by
  cases text with
  | nil => simp [string?] at h
  | cons c rest =>
    by_cases hquote : isQuote c = true
    · simp only [string?, hquote, if_true, Option.map_eq_some_iff, Prod.exists,
        Prod.mk.injEq] at h
      obtain ⟨tail, rest', htail, rfl, rfl⟩ := h
      exact ⟨c, tail, hquote, rfl, isTail_of_stringTail? htail⟩
    · simp [string?, hquote] at h

theorem string?_of_not_quote {c : Char} (h : isQuote c = false) (rest : Text) :
    string? (c :: rest) = none := by
  simp [string?, h]

end Strings

/-! ## Cutting into lexemes -/

section Lexemes

@[simp] theorem textOf_nil : textOf [] = [] := rfl

@[simp] theorem textOf_cons (lexeme : Lexeme) (lexemes : List Lexeme) :
    textOf (lexeme :: lexemes) = lexeme.text ++ textOf lexemes := List.flatMap_cons

@[simp] theorem textOf_append (a b : List Lexeme) : textOf (a ++ b) = textOf a ++ textOf b :=
  List.flatMap_append

@[simp] theorem textOf_map_plain (text : Text) : textOf (text.map Lexeme.plain) = text := by
  induction text with
  | nil => rfl
  | cons c rest ih =>
    rw [List.map_cons, textOf_cons, ih]
    rfl

theorem lexemes_of_string? {text string after : Text}
    (h : string? text = some (string, after)) :
    lexemes text = .quoted string :: lexemes after := by
  cases text with
  | nil => simp [string?] at h
  | cons c rest =>
    rw [lexemes]
    split
    · rename_i other rest' hother
      rw [h, Option.some.injEq, Prod.mk.injEq] at hother
      rw [hother.1, hother.2]
    · rename_i hnone
      simp [h] at hnone

theorem lexemes_cons {c : Char} {rest : Text} (h : string? (c :: rest) = none) :
    lexemes (c :: rest) = .plain c :: lexemes rest := by
  rw [lexemes]
  split
  · rename_i hsome
    simp [h] at hsome
  · rfl

/-- What is put together from whole lexemes is cut into them. -/
theorem lexemes_textOf {input : List Lexeme} (h : ∀ lexeme ∈ input, lexeme.IsWhole) :
    lexemes (textOf input) = input := by
  induction input with
  | nil => simp [lexemes]
  | cons lexeme rest ih =>
    obtain ⟨hlexeme, hrest⟩ := List.forall_mem_cons.1 h
    cases lexeme with
    | quoted string =>
      have hstring : string? (string ++ textOf rest) = some (string, textOf rest) :=
        string?_of_isString hlexeme (textOf rest)
      rw [textOf_cons, Lexeme.text, lexemes_of_string? hstring, ih hrest]
    | plain c =>
      have hnone : string? (c :: textOf rest) = none := string?_of_not_quote hlexeme _
      rw [textOf_cons, Lexeme.text, List.singleton_append, lexemes_cons hnone, ih hrest]

/-- The strings of a text have their closing quotes. -/
theorem isWhole_of_quoted_mem {text string : Text} (h : .quoted string ∈ lexemes text) :
    (Lexeme.quoted string).IsWhole := by
  fun_induction lexemes text with
  | case1 => simp at h
  | case2 c rest other after hother ih =>
    rcases List.mem_cons.1 h with heq | h
    · rw [Lexeme.quoted.injEq] at heq
      rw [heq]
      exact isString_of_string? hother
    · exact ih h
  | case3 c rest _ ih => exact ih (by simpa using h)

theorem mem_of_plain_mem {text : Text} {c : Char} (h : .plain c ∈ lexemes text) : c ∈ text := by
  have htext : textOf (lexemes text) = text := textOf_lexemes text
  rw [← htext, textOf, List.mem_flatMap]
  exact ⟨.plain c, h, List.mem_singleton_self c⟩

theorem head?_of_lexemes {text : Text} {c : Char} (h : (lexemes text).head? = some (.plain c)) :
    text.head? = some c := by
  obtain ⟨rest, hrest⟩ := List.head?_eq_some_iff.1 h
  have htext := textOf_lexemes text
  rw [hrest] at htext
  rw [← htext]
  rfl

end Lexemes

/-! ## Comments -/

/-- Not a slash before a star. -/
def Apart (a b : Lexeme) : Prop := a = .plain '/' → b ≠ .plain '*'

/-- No comment begins outside strings. -/
def HasNoComment (input : List Lexeme) : Prop := input.IsChain Apart

section Comments

theorem apart_plain {c : Char} (h : c ≠ '/') (lexeme : Lexeme) : Apart (.plain c) lexeme := by
  intro heq
  exact absurd (Lexeme.plain.inj heq) h

theorem apart_quoted (text : Text) (lexeme : Lexeme) : Apart (.quoted text) lexeme := by
  intro heq
  exact absurd heq (by simp)

theorem apart_of_ne (lexeme : Lexeme) {c : Char} (h : c ≠ '*') : Apart lexeme (.plain c) :=
  fun _ heq ↦ h (Lexeme.plain.inj heq)

theorem stripComments_of_string? {text string after : Text}
    (h : string? text = some (string, after)) :
    stripComments text = string ++ stripComments after := by
  cases text with
  | nil => simp [string?] at h
  | cons c rest =>
    have hslash : c ≠ '/' := by
      rintro rfl
      simp [string?, isQuote] at h
    rw [stripComments]
    · split
      · rename_i other after' hother
        rw [h, Option.some.injEq, Prod.mk.injEq] at hother
        rw [hother.1, hother.2]
      · rename_i hnone
        simp [h] at hnone
    · exact fun _ heq _ ↦ hslash heq

theorem stripComments_cons {c : Char} {rest : Text} (h : string? (c :: rest) = none)
    (hcomment : c = '/' → rest.head? ≠ some '*') :
    stripComments (c :: rest) = c :: stripComments rest := by
  rw [stripComments]
  · split
    · rename_i hsome
      simp [h] at hsome
    · rfl
  · rintro text rfl rfl
    exact hcomment rfl rfl

theorem head?_textOf {input : List Lexeme} (h : ∀ lexeme ∈ input, lexeme.IsWhole)
    (hstar : (textOf input).head? = some '*') : input.head? = some (.plain '*') := by
  have hlexemes := lexemes_textOf h
  obtain ⟨rest, hrest⟩ := List.head?_eq_some_iff.1 hstar
  have hnone : string? ('*' :: rest) = none := string?_of_not_quote rfl rest
  rw [hrest, lexemes_cons hnone] at hlexemes
  rw [← hlexemes]
  rfl

/-- Where no comment begins nothing is taken out. -/
theorem stripComments_textOf {input : List Lexeme} (h : ∀ lexeme ∈ input, lexeme.IsWhole)
    (hcomment : HasNoComment input) : stripComments (textOf input) = textOf input := by
  induction input with
  | nil => simp [stripComments]
  | cons lexeme rest ih =>
    obtain ⟨hlexeme, hrest⟩ := List.forall_mem_cons.1 h
    obtain ⟨hapart, hchain⟩ := List.isChain_cons.1 hcomment
    rw [textOf_cons]
    cases lexeme with
    | quoted string =>
      have hstring : string? (string ++ textOf rest) = some (string, textOf rest) :=
        string?_of_isString hlexeme (textOf rest)
      rw [Lexeme.text, stripComments_of_string? hstring, ih hrest hchain]
    | plain c =>
      have hnone : string? (c :: textOf rest) = none := string?_of_not_quote hlexeme _
      have hstar : c = '/' → (textOf rest).head? ≠ some '*' := by
        rintro rfl hhead
        exact hapart _ (head?_textOf hrest hhead) rfl rfl
      rw [Lexeme.text, List.singleton_append, stripComments_cons hnone hstar, ih hrest hchain]

end Comments

/-! ## What remains without comments -/

/-- A string that has begun is not closed in a text; the first character is escaped if `escaped`. -/
def IsOpen (quote : Char) : (escaped : Bool) → Text → Prop
  | _, [] => True
  | true, _ :: text => IsOpen quote false text
  | false, c :: text => c ≠ quote ∧ IsOpen quote (c = '\\') text

/-- Whether the character behind a text is escaped. -/
def escapesNext : (escaped : Bool) → Text → Bool
  | escaped, [] => escaped
  | true, _ :: text => escapesNext false text
  | false, c :: text => escapesNext (c = '\\') text

section Open

variable {quote : Char}

theorem isOpen_append (escaped : Bool) (s t : Text) :
    IsOpen quote escaped (s ++ t) ↔
      IsOpen quote escaped s ∧ IsOpen quote (escapesNext escaped s) t := by
  induction s generalizing escaped with
  | nil => simp [IsOpen, escapesNext]
  | cons c s ih => cases escaped <;> simp [IsOpen, escapesNext, ih, and_assoc]

theorem stringTail?_eq_none_iff (text : Text) (hquote : quote ≠ '\\') :
    stringTail? quote text = none ↔ IsOpen quote false text := by
  fun_induction stringTail? quote text with
  | case1 => simp [IsOpen]
  | case2 c text ih => simp [IsOpen, ih, hquote.symm]
  | case3 text => simp [IsOpen]
  | case4 text hone _ =>
    cases text with
    | nil => simp [IsOpen, hquote.symm]
    | cons c rest => exact absurd rfl (hone c rest rfl)
  | case5 c text _ hc hback ih => simp [IsOpen, ih, hc, hback]

/-- Nothing behind a whole string is escaped. -/
theorem IsTail.escapesNext_eq (hquote : quote ≠ '\\') {tail : Text} (h : IsTail quote tail) :
    escapesNext false tail = false := by
  induction h with
  | close => simp [escapesNext, hquote]
  | escape c _ ih => simpa [escapesNext] using ih
  | plain _ hback _ ih => simpa [escapesNext, hback] using ih

theorem IsString.escapesNext_eq {string : Text} (h : IsString string) (escaped : Bool) :
    escapesNext escaped string = false := by
  obtain ⟨quote, tail, hquote, rfl, htail⟩ := h
  have hback := ne_backslash_of_isQuote hquote
  have hrest := htail.escapesNext_eq hback
  cases escaped <;> simpa [escapesNext, hback] using hrest

/-- A comment ends with a slash, so what follows it is not escaped. -/
theorem IsOpen.afterComment {escaped : Bool} {text : Text} (h : IsOpen quote escaped text) :
    IsOpen quote false (afterComment text) := by
  fun_induction Stylesheet.afterComment text generalizing escaped with
  | case1 => trivial
  | case2 text => cases escaped <;> simp_all [IsOpen]
  | case3 c text _ ih =>
    cases escaped with
    | true => exact ih h
    | false => exact ih h.2

/-- A string that is not closed is not closed when comments are taken out. -/
theorem IsOpen.stripComments (hquote : isQuote quote = true) {escaped : Bool} {text : Text}
    (h : IsOpen quote escaped text) : IsOpen quote escaped (stripComments text) := by
  fun_induction Stylesheet.stripComments text generalizing escaped with
  | case1 => trivial
  | case2 rest ih =>
    have hspace : ' ' ≠ quote := by
      rintro rfl
      simp [isQuote] at hquote
    cases escaped with
    | true =>
      have hinside : IsOpen quote false rest := by simpa [IsOpen] using h.2
      exact ih hinside.afterComment
    | false =>
      have hinside : IsOpen quote false rest := by simpa [IsOpen] using h.2.2
      exact ⟨hspace, ih hinside.afterComment⟩
  | case3 c rest _ string after hstring ih =>
    have hnext := (isString_of_string? hstring).escapesNext_eq escaped
    rw [string?_eq hstring, isOpen_append, hnext] at h
    rw [isOpen_append, hnext]
    exact ⟨h.1, ih h.2⟩
  | case4 c rest _ _ ih =>
    cases escaped with
    | true => exact ih h
    | false => exact ⟨h.1, ih h.2⟩

theorem string?_cons_stripComments {c : Char} {rest : Text} (h : string? (c :: rest) = none) :
    string? (c :: stripComments rest) = none := by
  by_cases hquote : isQuote c = true
  · have hback := ne_backslash_of_isQuote hquote
    have hopen : IsOpen c false rest := by
      rw [← stringTail?_eq_none_iff rest hback]
      simpa [string?, hquote] using h
    have hnone := (stringTail?_eq_none_iff _ hback).2 (hopen.stripComments hquote)
    simp [string?, hnone]
  · exact string?_of_not_quote (by simpa using hquote) _

end Open

theorem head?_stripComments {text : Text} {c : Char} (hc : c ≠ ' ')
    (h : (stripComments text).head? = some c) : text.head? = some c := by
  fun_induction stripComments text with
  | case1 => exact h
  | case2 rest => exact absurd (by simpa using h.symm) hc
  | case3 d rest _ string after hstring =>
    have heq := string?_eq hstring
    obtain ⟨quote, tail, _, rfl, _⟩ := isString_of_string? hstring
    rw [heq]
    simpa using h
  | case4 d rest => simpa using h

/-- Without its comments a text has none. -/
theorem hasNoComment_stripComments (text : Text) :
    HasNoComment (lexemes (stripComments text)) := by
  fun_induction stripComments text with
  | case1 =>
    rw [lexemes]
    exact .nil
  | case2 rest ih =>
    rw [lexemes_cons (string?_of_not_quote rfl _)]
    exact List.isChain_cons.2 ⟨fun lexeme _ ↦ apart_plain (by decide) lexeme, ih⟩
  | case3 c rest _ string after hstring ih =>
    have hagain : string? (string ++ stripComments after) = some (string, stripComments after) :=
      string?_of_isString (isString_of_string? hstring) _
    rw [lexemes_of_string? hagain]
    exact List.isChain_cons.2 ⟨fun lexeme _ ↦ apart_quoted string lexeme, ih⟩
  | case4 c rest hcomment hnone ih =>
    rw [lexemes_cons (string?_cons_stripComments hnone)]
    refine List.isChain_cons.2 ⟨?_, ih⟩
    intro lexeme hhead hslash hstar
    rw [hstar] at hhead
    have hrest : rest.head? = some '*' :=
      head?_stripComments (by decide) (head?_of_lexemes hhead)
    obtain ⟨others, hothers⟩ := List.head?_eq_some_iff.1 hrest
    exact hcomment others (Lexeme.plain.inj hslash) hothers

/-- Taking comments out brings in spaces only. -/
theorem mem_of_mem_stripComments {text : Text} {c : Char} (h : c ∈ stripComments text) :
    c = ' ' ∨ c ∈ text := by
  have hsuffix (rest : Text) (hmem : c ∈ afterComment rest) : c ∈ rest := by
    fun_induction afterComment rest with
    | case1 => exact hmem
    | case2 text => simp [hmem]
    | case3 d text _ ih => exact List.mem_cons_of_mem d (ih hmem)
  fun_induction stripComments text with
  | case1 => exact Or.inr h
  | case2 rest ih =>
    rcases List.mem_cons.1 h with rfl | h
    · exact Or.inl rfl
    · exact (ih h).imp_right fun hmem ↦ by simp [hsuffix rest hmem]
  | case3 d rest _ string after hstring ih =>
    rw [string?_eq hstring, List.mem_append]
    rcases List.mem_append.1 h with h | h
    · exact Or.inr (Or.inl h)
    · exact (ih h).imp_right Or.inr
  | case4 d rest _ _ ih =>
    rcases List.mem_cons.1 h with rfl | h
    · exact Or.inr List.mem_cons_self
    · exact (ih h).imp_right (List.mem_cons_of_mem d)

end ComponentMarkup.Stylesheet

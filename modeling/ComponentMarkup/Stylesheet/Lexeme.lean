import ComponentMarkup.Text.Blank

/-!
# Lexemes of a style sheet

A quoted string hides whatever stands in it, so a style sheet is read as a list of whole strings
and single characters. A quote that nothing closes is a single character. A backslash inside a
string keeps the character behind it from closing the string.

Comments are taken out first: each becomes one space, and one that is not closed runs to the end.
A string hides the start of a comment and a comment hides quotes.
-/

namespace ComponentMarkup.Stylesheet

/-- A whole quoted string, its quotes included, or a single character. -/
inductive Lexeme where
  | quoted (text : Text)
  | plain (c : Char)
  deriving DecidableEq, Repr

def Lexeme.text : Lexeme → Text
  | quoted text => text
  | plain c => [c]

/-- The text of a list of lexemes. -/
def textOf (lexemes : List Lexeme) : Text := lexemes.flatMap Lexeme.text

def isQuote (c : Char) : Bool := c = '"' || c = '\''

/-- The rest of a string behind its opening quote, and what follows the string. -/
def stringTail? (quote : Char) : Text → Option (Text × Text)
  | [] => none
  | '\\' :: c :: text =>
    (stringTail? quote text).map fun (tail, after) => ('\\' :: c :: tail, after)
  | c :: text =>
    if c = quote then some ([c], text)
    else if c = '\\' then none
    else (stringTail? quote text).map fun (tail, after) => (c :: tail, after)

/-- The string that a text begins with, and what follows it. -/
def string? : Text → Option (Text × Text)
  | [] => none
  | c :: text =>
    if isQuote c then (stringTail? c text).map fun (tail, after) => (c :: tail, after) else none

theorem stringTail?_eq {quote : Char} {text tail after : Text}
    (h : stringTail? quote text = some (tail, after)) : text = tail ++ after := by
  fun_induction stringTail? quote text generalizing tail <;>
    simp only [Option.map_eq_some_iff, Prod.exists, Prod.mk.injEq, Option.some.injEq,
      reduceCtorEq] at h <;>
    grind

theorem string?_eq {text string after : Text} (h : string? text = some (string, after)) :
    text = string ++ after := by
  unfold string? at h
  split at h
  · simp at h
  · split at h
    · simp only [Option.map_eq_some_iff, Prod.exists, Prod.mk.injEq] at h
      obtain ⟨_, _, ht, rfl, rfl⟩ := h
      simp [stringTail?_eq ht]
    · simp at h

theorem length_lt_of_string? {text string after : Text} (h : string? text = some (string, after)) :
    after.length < text.length := by
  unfold string? at h
  split at h
  · simp at h
  · split at h
    · simp only [Option.map_eq_some_iff, Prod.exists, Prod.mk.injEq] at h
      obtain ⟨_, _, ht, _, rfl⟩ := h
      rw [stringTail?_eq ht, List.length_cons, List.length_append]
      omega
    · simp at h

/-- Cuts a text into lexemes. -/
def lexemes (text : Text) : List Lexeme :=
  match text with
  | [] => []
  | c :: rest =>
    match _h : string? (c :: rest) with
    | some (string, after) => .quoted string :: lexemes after
    | none => .plain c :: lexemes rest
termination_by text.length
decreasing_by
  · exact length_lt_of_string? _h
  · simp

/-- What follows a comment, from behind its opening. -/
def afterComment : Text → Text
  | [] => []
  | '*' :: '/' :: text => text
  | _ :: text => afterComment text

theorem length_afterComment_le (text : Text) : (afterComment text).length ≤ text.length := by
  fun_induction afterComment text <;> simp <;> omega

/-- Puts a space in the place of each comment. -/
def stripComments (text : Text) : Text :=
  match text with
  | [] => []
  | '/' :: '*' :: rest => ' ' :: stripComments (afterComment rest)
  | c :: rest =>
    match _h : string? (c :: rest) with
    | some (string, after) => string ++ stripComments after
    | none => c :: stripComments rest
termination_by text.length
decreasing_by
  · have := length_afterComment_le rest
    simp
    omega
  · exact length_lt_of_string? _h
  · simp

theorem textOf_lexemes (text : Text) : textOf (lexemes text) = text := by
  fun_induction lexemes text with
  | case1 => rfl
  | case2 c rest string after h ih =>
    simp only [textOf, List.flatMap_cons, Lexeme.text] at ih ⊢
    rw [ih, string?_eq h]
  | case3 c rest h ih =>
    simp only [textOf, List.flatMap_cons] at ih ⊢
    rw [ih]
    rfl

end ComponentMarkup.Stylesheet

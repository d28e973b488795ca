import ComponentMarkup.Json.Literal
import ComponentMarkup.Json.Number

/-!
# JSON tokens

A JSON text is first cut into tokens. White space is space, tab, line feed and carriage return.
-/

namespace ComponentMarkup.Json

inductive Token where
  | openBrace
  | closeBrace
  | openBracket
  | closeBracket
  | colon
  | comma
  | null
  | bool (value : Bool)
  | number (number : Number)
  | string (literal : Literal)
  deriving DecidableEq, Repr

namespace Token

def isSpace (c : Char) : Bool := c = ' ' || c = '\n' || c = '\t' || c = '\r'

def punctuation? (c : Char) : Option Token :=
  if c = '\x7b' then some openBrace
  else if c = '\x7d' then some closeBrace
  else if c = '[' then some openBracket
  else if c = ']' then some closeBracket
  else if c = ':' then some colon
  else if c = ',' then some comma
  else none

/-- The token that a text begins with and what follows it. -/
def next? : Text → Option (Token × Text)
  | [] => none
  | '"' :: rest => (Literal.read? rest).map fun (literal, after) => (string literal, after)
  | 'n' :: 'u' :: 'l' :: 'l' :: rest => some (null, rest)
  | 't' :: 'r' :: 'u' :: 'e' :: rest => some (bool true, rest)
  | 'f' :: 'a' :: 'l' :: 's' :: 'e' :: rest => some (bool false, rest)
  | c :: rest =>
    match punctuation? c with
    | some token => some (token, rest)
    | none => (Number.read? (c :: rest)).map fun (n, after) => (number n, after)

theorem length_lt_of_next? {text after : Text} {token : Token}
    (h : next? text = some (token, after)) : after.length < text.length := by
  unfold next? at h
  split at h
  · simp at h
  · simp only [Option.map_eq_some_iff, Prod.exists, Prod.mk.injEq] at h
    obtain ⟨_, _, hl, _, rfl⟩ := h
    have := Literal.length_lt_of_read? hl
    simp
    omega
  · grind
  · grind
  · grind
  · split at h
    · grind
    · simp only [Option.map_eq_some_iff, Prod.exists, Prod.mk.injEq] at h
      obtain ⟨_, _, hn, _, rfl⟩ := h
      exact Number.length_lt_of_read? hn

end Token

/-- Cuts a text into tokens. -/
def tokens? (text : Text) : Option (List Token) :=
  match _h : text.dropWhile Token.isSpace with
  | [] => some []
  | c :: rest =>
    match _hn : Token.next? (c :: rest) with
    | none => none
    | some (token, after) => (tokens? after).map (token :: ·)
termination_by text.length
decreasing_by
  have h₁ := (List.dropWhile_suffix (l := text) Token.isSpace).length_le
  have h₂ := Token.length_lt_of_next? _hn
  rw [_h] at h₁
  omega

end ComponentMarkup.Json

import ComponentMarkup.Text.Basic

/-!
# JSON string literals

A string literal is a list of characters and of 16-bit units written as `\u` escapes. It denotes a
text only if each unit of a surrogate pair stands with its partner.

A text is written with the shortest escape of each character that needs one: the double quote, the
backslash and the control characters below the space. All other characters stand for themselves.
-/

namespace ComponentMarkup.Json

/-- One element of a string literal. -/
inductive Unit where
  | char (c : Char)
  /-- A unit written with four hexadecimal digits. -/
  | escaped (code : Nat)
  deriving DecidableEq, Repr

/-- What stands between the quotes of a string literal. -/
abbrev Literal := List Unit

namespace Literal

def hexValue? (c : Char) : Option Nat :=
  let n := c.toNat
  if 48 ≤ n && n ≤ 57 then some (n - 48)
  else if 65 ≤ n && n ≤ 70 then some (n - 55)
  else if 97 ≤ n && n ≤ 102 then some (n - 87)
  else none

/-- The unit that four hexadecimal digits write. -/
def unit? (a b c d : Char) : Option Nat :=
  match hexValue? a, hexValue? b, hexValue? c, hexValue? d with
  | some a, some b, some c, some d => some (((a * 16 + b) * 16 + c) * 16 + d)
  | _, _, _, _ => none

/-- The character behind a backslash, other than `u`. -/
def shortEscape? (c : Char) : Option Char :=
  if c = '"' then some '"'
  else if c = '\\' then some '\\'
  else if c = '/' then some '/'
  else if c = 'b' then some '\x08'
  else if c = 'f' then some '\x0c'
  else if c = 'n' then some '\n'
  else if c = 'r' then some '\r'
  else if c = 't' then some '\t'
  else none

/-- Reads a literal behind its opening quote: the literal and what follows its closing quote. -/
def read? : Text → Option (Literal × Text)
  | [] => none
  | '"' :: rest => some ([], rest)
  | '\\' :: 'u' :: a :: b :: c :: d :: rest =>
    (unit? a b c d).bind fun code =>
      (read? rest).map fun (literal, after) => (.escaped code :: literal, after)
  | '\\' :: c :: rest =>
    (shortEscape? c).bind fun c =>
      (read? rest).map fun (literal, after) => (.char c :: literal, after)
  | c :: rest =>
    if c.toNat < 0x20 || c = '\\' then none
    else (read? rest).map fun (literal, after) => (.char c :: literal, after)

theorem length_lt_of_read? {text after : Text} {literal : Literal}
    (h : read? text = some (literal, after)) : after.length < text.length := by
  fun_induction read? text generalizing literal <;>
    simp only [Option.bind_eq_some_iff, Option.map_eq_some_iff, Prod.exists, Prod.mk.injEq,
      Option.some.injEq, reduceCtorEq] at h <;>
    grind

def isHighSurrogate (code : Nat) : Bool := 0xD800 ≤ code && code ≤ 0xDBFF

def isLowSurrogate (code : Nat) : Bool := 0xDC00 ≤ code && code ≤ 0xDFFF

/-- The character that a surrogate pair denotes. -/
def pairChar (high low : Nat) : Char :=
  Char.ofNat (0x10000 + (high - 0xD800) * 0x400 + (low - 0xDC00))

/-- The text that a literal denotes. -/
def text? : Literal → Option Text
  | [] => some []
  | .char c :: rest => (text? rest).map (c :: ·)
  | .escaped high :: .escaped low :: rest =>
    if isHighSurrogate high then
      if isLowSurrogate low then (text? rest).map (pairChar high low :: ·) else none
    else if isLowSurrogate high then none
    else (text? (.escaped low :: rest)).map (Char.ofNat high :: ·)
  | .escaped code :: rest =>
    if isHighSurrogate code || isLowSurrogate code then none
    else (text? rest).map (Char.ofNat code :: ·)

end Literal

/-- How a character is written between the quotes. -/
def escapeChar (c : Char) : Text :=
  if c = '"' then ['\\', '"']
  else if c = '\\' then ['\\', '\\']
  else if c = '\x08' then ['\\', 'b']
  else if c = '\x0c' then ['\\', 'f']
  else if c = '\n' then ['\\', 'n']
  else if c = '\r' then ['\\', 'r']
  else if c = '\t' then ['\\', 't']
  else if c.toNat < 0x20 then
    ['\\', 'u', '0', '0', Text.hexDigit (c.toNat / 16), Text.hexDigit (c.toNat % 16)]
  else [c]

/-- A text as a string literal. -/
def quote (text : Text) : Text := '"' :: text.flatMap escapeChar ++ ['"']

end ComponentMarkup.Json

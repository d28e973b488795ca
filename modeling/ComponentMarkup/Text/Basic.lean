/-!
# Texts

Everything that is read or written is a text: a list of characters. Lengths that leave the
library are counted in bytes of UTF-8, and replacing a text inside another goes from left to
right without looking at what has just been put in.
-/

namespace ComponentMarkup

/-- A text is a list of characters. -/
abbrev Text := List Char

instance : LawfulBEq Text := inferInstanceAs (LawfulBEq (List Char))

namespace Text

/-- The number of bytes of the UTF-8 form. -/
def byteLength : Text → Nat
  | [] => 0
  | c :: text => c.utf8Size + byteLength text

@[simp] theorem byteLength_nil : byteLength [] = 0 := rfl

@[simp] theorem byteLength_append (s t : Text) :
    byteLength (s ++ t) = byteLength s + byteLength t := by
  induction s with
  | nil => simp
  | cons c s ih => simp [byteLength, ih, Nat.add_assoc]

/-- The bytes of the UTF-8 form. -/
def bytes (text : Text) : List UInt8 := text.flatMap String.utf8EncodeChar

/-- Leaves out the characters of a class at both ends. -/
def trimBy (p : Char → Bool) (text : Text) : Text :=
  ((text.dropWhile p).reverse.dropWhile p).reverse

/-- What follows `literal` at the front of a text that begins with it. -/
def after? : (literal text : Text) → Option Text
  | [], text => some text
  | _ :: _, [] => none
  | a :: literal, c :: text => if a = c then after? literal text else none

theorem after?_eq_some_iff {literal text rest : Text} :
    after? literal text = some rest ↔ text = literal ++ rest := by
  induction literal generalizing text with
  | nil => simp [after?]
  | cons a literal ih =>
    cases text with
    | nil => simp [after?]
    | cons c text => by_cases h : a = c <;> simp [after?, h, ih, eq_comm]

/-- The pieces between the separators, one more than there are separators. -/
def splitOn (separator : Char) : Text → List Text
  | [] => [[]]
  | c :: rest =>
    if c = separator then [] :: splitOn separator rest
    else match splitOn separator rest with
      | [] => [[c]]
      | piece :: pieces => (c :: piece) :: pieces

/-- Replacement with `skip` characters still to be left out of an occurrence already replaced. -/
def replaceFrom (old new : Text) : (skip : Nat) → Text → Text
  | _, [] => []
  | skip + 1, _ :: rest => replaceFrom old new skip rest
  | 0, c :: rest =>
    if old.isPrefixOf (c :: rest) then new ++ replaceFrom old new (old.length - 1) rest
    else c :: replaceFrom old new 0 rest

/-- Every occurrence of a non-empty `old` becomes `new`, from left to right. -/
def replaceAll (old new text : Text) : Text :=
  if old.isEmpty then text else replaceFrom old new 0 text

/-- A hexadecimal digit, with small letters. -/
def hexDigit (n : Nat) : Char := if n < 10 then Char.ofNat (48 + n) else Char.ofNat (87 + n)

/-- The texts one after the other with a separator between them. -/
def joinWith (separator : Text) (pieces : List Text) : Text := List.intercalate separator pieces

/-- ASCII letters become small letters. -/
def lower (text : Text) : Text := text.map Char.toLower

/-- ASCII letters become capital letters. -/
def upper (text : Text) : Text := text.map Char.toUpper

end Text

end ComponentMarkup

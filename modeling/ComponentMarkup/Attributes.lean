import ComponentMarkup.Dict
import ComponentMarkup.Tag.Scan
import ComponentMarkup.Text.Html

/-!
# Attributes

Attributes are read from the text between a tag name and the end of the tag. A name is a longest
run of characters other than white space, `=`, quotes and `/`; a value follows `=`, quoted or
bare, and a name without a value has the empty one. What fits nowhere is skipped. A name that
comes again keeps its first place and takes the last value.

Attributes are written each behind one space, a name alone where the value is empty. A double
quote inside a value becomes a reference, so a written value ends where it should.
-/

namespace ComponentMarkup

/-- Attribute names with their values, in the order in which the names came. -/
abbrev Attributes := Dict Text

namespace Attributes

open Text

def isNameChar (c : Char) : Bool :=
  !(isBlank c || c = '=' || c = '"' || c = '\'' || c = '/')

def isBareValueChar (c : Char) : Bool :=
  !(isBlank c || c = '"' || c = '\'' || c = '>')

/-- A quoted value behind its opening quote, and what follows the closing one. -/
def quotedValue? (quote : Char) (text : Text) : Option (Text × Text) :=
  match text.dropWhile (· ≠ quote) with
  | [] => none
  | _ :: rest => some (text.takeWhile (· ≠ quote), rest)

/-- A value that begins here, and what follows it. -/
def valueHere? (text : Text) : Option (Text × Text) :=
  match text with
  | '"' :: rest => quotedValue? '"' rest
  | '\'' :: rest => quotedValue? '\'' rest
  | _ =>
    if (text.takeWhile isBareValueChar).isEmpty then none
    else some (text.takeWhile isBareValueChar, text.dropWhile isBareValueChar)

/-- The value behind a name, with `=` and any white space around it, and what follows it. -/
def value? (text : Text) : Option (Text × Text) :=
  match text.dropWhile isBlank with
  | '=' :: rest => valueHere? (rest.dropWhile isBlank)
  | _ => none

theorem length_dropWhile_le (p : Char → Bool) (text : Text) :
    (text.dropWhile p).length ≤ text.length :=
  (List.dropWhile_suffix p).length_le

theorem length_lt_of_quotedValue? {quote : Char} {text value rest : Text}
    (h : quotedValue? quote text = some (value, rest)) : rest.length < text.length := by
  unfold quotedValue? at h
  split at h
  · simp at h
  · rename_i hd
    have hl := length_dropWhile_le (fun c => decide (c ≠ quote)) text
    rw [hd] at hl
    simp only [Option.some.injEq, Prod.mk.injEq] at h
    rw [← h.2]
    exact hl

theorem length_le_of_valueHere? {text value rest : Text}
    (h : valueHere? text = some (value, rest)) : rest.length ≤ text.length := by
  unfold valueHere? at h
  split at h
  · have := length_lt_of_quotedValue? h
    simp
    omega
  · have := length_lt_of_quotedValue? h
    simp
    omega
  · split at h
    · simp at h
    · simp only [Option.some.injEq, Prod.mk.injEq] at h
      rw [← h.2]
      exact length_dropWhile_le _ _

theorem length_le_of_value? {text value rest : Text} (h : value? text = some (value, rest)) :
    rest.length ≤ text.length := by
  unfold value? at h
  split at h
  · rename_i r hd
    have h₁ := length_le_of_valueHere? h
    have h₂ := length_dropWhile_le isBlank r
    have h₃ := length_dropWhile_le isBlank text
    rw [hd] at h₃
    simp at h₃
    omega
  · simp at h

/-- The attributes of a text in the order in which they are written, repeated names included. -/
def pairs (text : Text) : List (Text × Text) :=
  match _h : text.dropWhile (!isNameChar ·) with
  | [] => []
  | c :: rest =>
    let name := c :: rest.takeWhile isNameChar
    match _hv : value? (rest.dropWhile isNameChar) with
    | some (value, after) => (name, value) :: pairs after
    | none => (name, []) :: pairs (rest.dropWhile isNameChar)
termination_by text.length
decreasing_by
  all_goals
    have h₁ := length_dropWhile_le (!isNameChar ·) text
    have h₂ := length_dropWhile_le isNameChar rest
    rw [_h] at h₁
    simp only [List.length_cons] at h₁
  · have h₃ := length_le_of_value? _hv
    omega
  · omega

/-- Reads the text between a tag name and the end of the tag. -/
def parse (text : Text) : Attributes := Dict.ofPairs (pairs (trim text))

/-- The attributes of the first opening tag with exactly this name. -/
def ofTag (name markup : Text) : Attributes :=
  match Tag.occurrences .kept name markup with
  | occurrence :: _ => parse occurrence.attributes
  | [] => []

def renderPair : Text × Text → Text
  | (name, []) => ' ' :: name
  | (name, value) => ' ' :: name ++ ['=', '"'] ++ escapeQuotes value ++ ['"']

/-- Writes the attributes as they stand behind a tag name. -/
def render (attributes : Attributes) : Text := attributes.flatMap renderPair

end Attributes

end ComponentMarkup

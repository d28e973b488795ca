import ComponentMarkup.Text.Blank

/-!
# Occurrences of a tag

An occurrence is kept as the parts it was read from: the white space after `<`, the name as it was
written, the text of the attributes, and what ends it. Writing the parts one after the other gives
back the text, so every position inside an occurrence is the length of the parts before it.
-/

namespace ComponentMarkup.Tag

/-- Whether letters of a tag name are compared as they are or without regard to ASCII case. -/
inductive LetterCase where
  | kept
  | ignored
  deriving DecidableEq, Repr

def LetterCase.agrees : LetterCase → Char → Char → Bool
  | .kept, a, b => a = b
  | .ignored, a, b => a.toLower = b.toLower

/-- What ends an occurrence after its attributes. -/
inductive Ending where
  /-- A slash and `>`. -/
  | selfClosing
  /-- A `>` that no closing tag follows. -/
  | unclosed
  /-- A `>`, the inner text and the closing tag as it was written. -/
  | closed (inner closing : Text)
  deriving DecidableEq, Repr

namespace Ending

def text : Ending → Text
  | selfClosing => ['/', '>']
  | unclosed => ['>']
  | closed inner closing => '>' :: inner ++ closing

def inner? : Ending → Option Text
  | closed inner _ => some inner
  | _ => none

end Ending

/-- One occurrence of a tag, in parts. -/
structure Occurrence where
  /-- White space between `<` and the name. -/
  gap : Text
  /-- The name as it was written. -/
  name : Text
  /-- All between the name and the ending. -/
  attributes : Text
  ending : Ending
  deriving DecidableEq, Repr

namespace Occurrence

/-- All before the attributes. -/
def front (occurrence : Occurrence) : Text := '<' :: occurrence.gap ++ occurrence.name

/-- The whole text of an occurrence. -/
def text (occurrence : Occurrence) : Text :=
  occurrence.front ++ occurrence.attributes ++ occurrence.ending.text

/-- The inner text, empty where there is none. -/
def innerText (occurrence : Occurrence) : Text := occurrence.ending.inner?.getD []

def isSelfClosing (occurrence : Occurrence) : Bool := occurrence.ending = .selfClosing

end Occurrence

/-- A stretch of a source, counted in bytes of UTF-8 from its beginning. -/
structure Span where
  start : Nat
  stop : Nat
  deriving DecidableEq, Repr

/-- An occurrence with the number of bytes before it. -/
structure Placed where
  start : Nat
  occurrence : Occurrence
  deriving DecidableEq, Repr

namespace Placed

def span (placed : Placed) : Span :=
  ⟨placed.start, placed.start + placed.occurrence.text.byteLength⟩

def attributeSpan (placed : Placed) : Span :=
  let first := placed.start + placed.occurrence.front.byteLength
  ⟨first, first + placed.occurrence.attributes.byteLength⟩

def innerSpan? (placed : Placed) : Option Span :=
  placed.occurrence.ending.inner?.map fun inner =>
    let first := placed.attributeSpan.stop + 1
    ⟨first, first + inner.byteLength⟩

end Placed

end ComponentMarkup.Tag

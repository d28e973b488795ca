import ComponentMarkup.Json.Value

/-!
# Records in JSON

A record is read from an object by the names of its fields, or from an array by their places. In
an object fields that the record does not have are passed over, whatever they hold; a field of the
record may come only once. An array may be shorter than the record and not longer.

A record is written with its fields in the order in which they are declared.
-/

namespace ComponentMarkup.Json

namespace Document

/-- A text, if the document is a string that denotes one. -/
def text? : Document → Option Text
  | string literal => Literal.text? literal
  | _ => none

def bool? : Document → Option Bool
  | bool value => some value
  | _ => none

/-- A natural number below a bound, written with digits alone. -/
def nat? (bound : Nat) : Document → Option Nat
  | number n => n.nat?.bind fun n => if n < bound then some n else none
  | _ => none

/-- Null stands for nothing. -/
def optional? {α : Type} (read? : Document → Option α) : Document → Option (Option α)
  | null => some none
  | document => (read? document).map some

def items? : Document → Option (List Document)
  | array items => some items
  | _ => none

end Document

namespace Record

/-- Puts a member into the place of the field that it names; a place is filled only once. -/
def fill? (key : Text) (document : Document) :
    List Text → List (Option Document) → Option (List (Option Document))
  | name :: names, place :: places =>
    if name = key then
      if place.isSome then none else some (some document :: places)
    else (fill? key document names places).map (place :: ·)
  | _, places => some places

/-- Puts the members of an object into the places of the fields, one after the other. -/
def fillAll? (names : List Text) :
    List (Literal × Document) → List (Option Document) → Option (List (Option Document))
  | [], places => some places
  | (literal, document) :: rest, places =>
    (Literal.text? literal).bind fun key =>
      (fill? key document names places).bind fun places => fillAll? names rest places

/-- The documents of the fields with these names, in order; a field may be missing. -/
def fields? (names : List Text) : Document → Option (List (Option Document))
  | .object members => fillAll? names members (names.map fun _ => none)
  | .array items =>
    if names.length < items.length then none
    else some (items.map some ++ List.replicate (names.length - items.length) none)
  | _ => none

/-- Reads a field; a missing one has a value of its own. -/
def fieldOr {α : Type} (missing : α) (read? : Document → Option α) : Option Document → Option α
  | none => some missing
  | some document => read? document

/-- Reads a field that may not be missing. -/
def field {α : Type} (read? : Document → Option α) : Option Document → Option α
  | none => none
  | some document => read? document

/-- Writes the fields of an object with commas between them. -/
def renderFields : List (Text × Text) → Text
  | [] => []
  | [(name, value)] => quote name ++ ':' :: value
  | (name, value) :: rest => quote name ++ ':' :: value ++ ',' :: renderFields rest

/-- Writes an object whose field values are written already. -/
def render (fields : List (Text × Text)) : Text := '\x7b' :: renderFields fields ++ ['\x7d']

/-- Writes an array whose items are written already. -/
def renderArray (items : List Text) : Text := '[' :: Text.joinWith [','] items ++ [']']

def renderBool (value : Bool) : Text := if value then "true".toList else "false".toList

def renderNat (n : Nat) : Text := Nat.toDigits 10 n

/-- Writes null for nothing. -/
def renderOptional {α : Type} (render : α → Text) : Option α → Text
  | none => "null".toList
  | some value => render value

end Record

end ComponentMarkup.Json

import ComponentMarkup.Decimal.Shortest
import ComponentMarkup.Dict
import ComponentMarkup.Json.Document

/-!
# JSON values

A value is what a document means. The members of an object stand in the order of their keys, by
code points, each key once; of repeated keys the last one counts. Arrays and objects may be nested
127 deep.

Values are written without white space.
-/

namespace ComponentMarkup.Json

inductive Value where
  | null
  | bool (value : Bool)
  | int (n : Int)
  | float (x : Decimal.Binary64)
  | string (text : Text)
  | array (items : List Value)
  | object (members : List (Text × Value))
  deriving Repr

/-- The members of an object in the order of their keys. -/
abbrev Object := Dict Value

namespace Object

/-- Puts a key in its place; a key that is there takes the value. -/
def insert : Object → Text → Value → Object
  | [], key, value => [(key, value)]
  | (k, v) :: rest, key, value =>
    if k = key then (key, value) :: rest
    else if k < key then (k, v) :: insert rest key value
    else (key, value) :: (k, v) :: rest

/-- The members of `upper` over those of `lower`. -/
def overlay (lower upper : Object) : Object :=
  upper.foldl (fun object member => insert object member.1 member.2) lower

def ofMembers (members : List (Text × Value)) : Object := overlay [] members

theorem find?_insert (object : Object) (key other : Text) (value : Value) :
    Dict.find? (insert object key value) other =
      if key = other then some value else Dict.find? object other := by
  induction object with
  | nil => simp [insert, Dict.find?]
  | cons member rest ih => grind [insert, Dict.find?]

end Object

namespace Value

/-- How deep arrays and objects may be nested. -/
def depthLimit : Nat := 127

mutual

/-- What a document means, if it is at most `depth` deep. -/
def ofDocument? (depth : Nat) : Document → Option Value
  | .null => some .null
  | .bool value => some (.bool value)
  | .number number => number.value?.map fun
    | .int n => .int n
    | .float x => .float x
  | .string literal => (Literal.text? literal).map .string
  | .array items => if depth = 0 then none else (ofItems? (depth - 1) items).map .array
  | .object members =>
    if depth = 0 then none
    else (ofMembers? (depth - 1) members).map fun members => .object (Object.ofMembers members)

def ofItems? (depth : Nat) : List Document → Option (List Value)
  | [] => some []
  | item :: rest =>
    (ofDocument? depth item).bind fun value => (ofItems? depth rest).map (value :: ·)

def ofMembers? (depth : Nat) : List (Literal × Document) → Option (List (Text × Value))
  | [] => some []
  | (literal, document) :: rest =>
    (Literal.text? literal).bind fun key =>
      (ofDocument? depth document).bind fun value =>
        (ofMembers? depth rest).map ((key, value) :: ·)

end

/-- Reads a JSON text as a value. -/
def read? (text : Text) : Option Value := (Document.read? text).bind (ofDocument? depthLimit)

/-- An integer in decimal digits. -/
def intText (n : Int) : Text :=
  if n < 0 then '-' :: Nat.toDigits 10 n.natAbs else Nat.toDigits 10 n.natAbs

mutual

/-- Writes a value without white space. -/
def render : Value → Text
  | null => ['n', 'u', 'l', 'l']
  | bool true => ['t', 'r', 'u', 'e']
  | bool false => ['f', 'a', 'l', 's', 'e']
  | int n => intText n
  | float x => x.text
  | string text => quote text
  | array items => '[' :: renderItems items ++ [']']
  | object members => '\x7b' :: renderMembers members ++ ['\x7d']

/-- Writes the items of an array with commas between them. -/
def renderItems : List Value → Text
  | [] => []
  | [item] => render item
  | item :: rest => render item ++ ',' :: renderItems rest

/-- Writes the members of an object with commas between them. -/
def renderMembers : List (Text × Value) → Text
  | [] => []
  | [(key, value)] => quote key ++ ':' :: render value
  | (key, value) :: rest => quote key ++ ':' :: render value ++ ',' :: renderMembers rest

end

/-- The members of an object; any other value has none. -/
def members : Value → Object
  | object members => members
  | _ => []

/-- A value as it is shown in a page: a text as it is, null as nothing, all else as JSON. -/
def display : Value → Text
  | null => []
  | string text => text
  | value => render value

end Value

/-- Writes an object without white space. -/
def Object.render (object : Object) : Text := Value.render (.object object)

end ComponentMarkup.Json

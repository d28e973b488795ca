import ComponentMarkup.Json.Token

/-!
# JSON documents

A document is the tree that a JSON text spells, with every literal as it was written and every
member of every object in order, repeated keys included. What a literal means is left to the
reader of the tree.

The tree is built by a machine that takes one token at a time. It keeps a stack of arrays and
objects that are not yet closed and knows what may come next.
-/

namespace ComponentMarkup.Json

/-- The tree that a JSON text spells. -/
inductive Document where
  | null
  | bool (value : Bool)
  | number (number : Number)
  | string (literal : Literal)
  | array (items : List Document)
  | object (members : List (Literal × Document))
  deriving Repr

namespace Document

/-- An array or object that is not yet closed; what it holds so far comes last first. -/
inductive Frame where
  | array (done : List Document)
  | object (done : List (Literal × Document)) (key : Literal)
  deriving Repr

/-- What may come next, inside of the frames. -/
inductive State where
  | value (frames : List Frame)
  /-- Behind an opening bracket: a value or the closing bracket. -/
  | firstItem (frames : List Frame)
  /-- Behind an opening brace: a key or the closing brace. -/
  | firstKey (frames : List Frame)
  /-- Behind a comma in an object: a key. -/
  | key (done : List (Literal × Document)) (frames : List Frame)
  | colon (done : List (Literal × Document)) (key : Literal) (frames : List Frame)
  /-- Behind a whole value. -/
  | after (document : Document) (frames : List Frame)
  deriving Repr

namespace State

/-- A token where a value may come. -/
def valueStep (frames : List Frame) : Token → Option State
  | .openBrace => some (firstKey frames)
  | .openBracket => some (firstItem frames)
  | .null => some (after .null frames)
  | .bool b => some (after (.bool b) frames)
  | .number n => some (after (.number n) frames)
  | .string s => some (after (.string s) frames)
  | _ => none

/-- A token behind a value that stands inside a frame. -/
def afterStep (document : Document) (frames : List Frame) : Frame → Token → Option State
  | .array done, .comma => some (value (.array (document :: done) :: frames))
  | .array done, .closeBracket => some (after (.array (document :: done).reverse) frames)
  | .object done k, .comma => some (key ((k, document) :: done) frames)
  | .object done k, .closeBrace => some (after (.object ((k, document) :: done).reverse) frames)
  | _, _ => none

def step : State → Token → Option State
  | value frames, token => valueStep frames token
  | firstItem frames, .closeBracket => some (after (.array []) frames)
  | firstItem frames, token => valueStep (.array [] :: frames) token
  | firstKey frames, .closeBrace => some (after (.object []) frames)
  | firstKey frames, .string k => some (colon [] k frames)
  | key done frames, .string k => some (colon done k frames)
  | colon done k frames, .colon => some (value (.object done k :: frames))
  | after document (frame :: frames), token => afterStep document frames frame token
  | _, _ => none

end State

/-- The document that tokens spell. -/
def ofTokens? (tokens : List Token) : Option Document :=
  match tokens.foldlM State.step (State.value []) with
  | some (.after document []) => some document
  | _ => none

/-- Reads a JSON text. -/
def read? (text : Text) : Option Document := (tokens? text).bind ofTokens?

end Document

end ComponentMarkup.Json

import ComponentMarkup.Proofs.Json.Spell
import ComponentMarkup.Template.Render

/-!
# The written form of templates

A template as an author writes it: texts with bindings between them, expressions with a head and
filters, calls with arguments, and white space where it may stand. Each written form has its text,
and each has its meaning: values are found from left to right, and the data that one call leaves
are the data of the next.

The forms carry the conditions on what they are written with. A quoted text holds no brace and not
its own quote, a path does not begin with a word that stands for a value, and a text in front of a
binding does not end with an opening brace.
-/

namespace ComponentMarkup.Template.Surface

open Text Json

/-! ## Texts -/

def startsIdentifier (c : Char) : Bool := c.isAlpha || c = '_' || c = '$'

def continuesIdentifier (c : Char) : Bool := c.isAlphanum || c = '_' || c = '$'

/-- An identifier. -/
structure Name where
  first : Char
  rest : Text
  starts : startsIdentifier first = true
  continues : ∀ c ∈ rest, continuesIdentifier c = true

def Name.text (name : Name) : Text := name.first :: name.rest

/-- White space, or nothing. -/
structure Gap where
  text : Text
  isBlank : ∀ c ∈ text, Text.isBlank c = true

/-- A place in an array. -/
structure Index where
  digits : Text
  ne_nil : digits ≠ []
  isDigit : ∀ c ∈ digits, c.isDigit = true

inductive Segment where
  | name (name : Name)
  | index (index : Index)

def Segment.text : Segment → Text
  | name n => n.text
  | index place => place.digits

/-- A path into the data. -/
structure Path where
  first : Name
  steps : List Segment
  not_keyword : first.text ∉ ["true".toList, "false".toList, "null".toList]

def Path.names (path : Path) : List Text := path.first.text :: path.steps.map Segment.text

def Path.text (path : Path) : Text := joinWith ['.'] path.names

/-- A JSON number as it is written. -/
structure Numeral where
  number : Number
  text : Text
  isWritten : number.Writes text

/-- A text between quotes. -/
structure Quoted where
  quote : Char
  inside : Text
  isQuote : quote = '\'' ∨ quote = '"'
  not_mem : quote ∉ inside
  no_brace : '\x7b' ∉ inside ∧ '\x7d' ∉ inside

def Quoted.text (quoted : Quoted) : Text := quoted.quote :: quoted.inside ++ [quoted.quote]

/-- What can stand as an argument. -/
inductive Atom where
  | path (path : Path)
  | number (numeral : Numeral)
  | bool (value : Bool)
  | null
  | quoted (quoted : Quoted)

def Atom.text : Atom → Text
  | path p => p.text
  | number n => n.text
  | .bool true => "true".toList
  | .bool false => "false".toList
  | .null => "null".toList
  | quoted q => q.text

/-- An argument and the white space around it. -/
structure Argument where
  before : Gap
  atom : Atom
  after : Gap

def Argument.text (argument : Argument) : Text :=
  argument.before.text ++ argument.atom.text ++ argument.after.text

/-- A name with arguments between parentheses. -/
structure Call where
  name : Name
  gap : Gap
  inner : Gap
  arguments : List Argument

def Call.inside (call : Call) : Text :=
  call.inner.text ++ joinWith [','] (call.arguments.map Argument.text)

def Call.text (call : Call) : Text :=
  call.name.text ++ call.gap.text ++ '(' :: call.inside ++ [')']

inductive Head where
  | atom (atom : Atom)
  | call (call : Call)

def Head.text : Head → Text
  | atom a => a.text
  | call c => c.text

inductive Filter where
  | name (name : Name)
  | call (call : Call)

def Filter.text : Filter → Text
  | name n => n.text
  | call c => c.text

/-- A filter behind its bar, with the white space around the bar. -/
structure Stage where
  before : Gap
  after : Gap
  filter : Filter

def Stage.text (stage : Stage) : Text :=
  stage.before.text ++ '|' :: stage.after.text ++ stage.filter.text

structure Expression where
  head : Head
  stages : List Stage

def Expression.text (expression : Expression) : Text :=
  expression.head.text ++ expression.stages.flatMap Stage.text

/-- An expression between double braces if it is escaped, between triple ones if not. -/
structure Binding where
  isEscaped : Bool
  before : Gap
  expression : Expression
  after : Gap

def Binding.opening (binding : Binding) : Text :=
  if binding.isEscaped then openDouble else openTriple

def Binding.closing (binding : Binding) : Text :=
  if binding.isEscaped then closeDouble else closeTriple

def Binding.text (binding : Binding) : Text :=
  binding.opening ++ binding.before.text ++ binding.expression.text ++ binding.after.text
    ++ binding.closing

/-- A text that opens no binding. -/
structure Literal where
  text : Text
  not_open : ¬ openDouble <:+: text

/-- A text and the binding behind it. -/
structure Piece where
  literal : Literal
  not_brace : literal.text.getLast? ≠ some '\x7b'
  binding : Binding

def Piece.text (piece : Piece) : Text := piece.literal.text ++ piece.binding.text

/-- A whole template. -/
structure Page where
  pieces : List Piece
  last : Literal

def Page.text (page : Page) : Text := page.pieces.flatMap Piece.text ++ page.last.text

/-! ## Meanings -/

/-- A step into a value: a member of an object, or an item of an array at a place. -/
def Segment.step? (value : Value) (segment : Segment) : Option Value :=
  match value, segment with
  | .object members, segment => Dict.find? members segment.text
  | .array items, index place => items[Nat.ofDigitChars 10 place.digits 0]?
  | _, _ => none

/-- The value at the end of a path; one that leads nowhere has none, which is null. -/
def Path.value (data : Data) (path : Path) : Value :=
  ((Dict.find? data path.first.text).bind fun value ↦
    path.steps.foldlM Segment.step? value).getD .null

/-- The JSON value of a number. One that is too large is looked up, with steps between its points. -/
def Numeral.value (data : Data) (numeral : Numeral) : Value :=
  match numeral.number.value? with
  | some (.int n) => .int n
  | some (.float x) => .float x
  | none => (Data.lookup? data (splitOn '.' numeral.text)).getD .null

def Atom.value (data : Data) : Atom → Value
  | path p => p.value data
  | number n => n.value data
  | .bool value => .bool value
  | .null => .null
  | quoted q => .string q.inside

/-- The values of the arguments, all found in the data before the call. -/
def Call.values (data : Data) (call : Call) : List Value :=
  call.arguments.map fun argument ↦ argument.atom.value data

/-- The value of a head and the data behind it. A method that is not there gives null. -/
def Head.value (model : Model) (data : Data) : Head → Value × Data
  | atom a => (a.value data, data)
  | call c =>
    match Dict.find? model.methods c.name.text with
    | some method => method data (c.values data)
    | none => (.null, data)

def Filter.target : Filter → Text
  | name n => n.text
  | call c => c.name.text

def Filter.values (data : Data) : Filter → List Value
  | .name _ => []
  | .call c => c.values data

/-- Sends a value through a filter. A filter that is not there passes it on. -/
def Filter.send (model : Model) (state : Value × Data) (filter : Filter) : Value × Data :=
  match Dict.find? model.filters filter.target with
  | some method => method state.2 (state.1 :: filter.values state.2)
  | none => state

def Expression.value (model : Model) (data : Data) (expression : Expression) : Value × Data :=
  expression.stages.foldl (fun state stage ↦ stage.filter.send model state)
    (expression.head.value model data)

/-- What a binding shows. -/
def Binding.shown (binding : Binding) (value : Value) : Text :=
  if binding.isEscaped then escapeHtml value.display else value.display

/-- What the pieces show one after the other, and the data at the end. -/
def showPieces (model : Model) (data : Data) : List Piece → Text × Data
  | [] => ([], data)
  | piece :: pieces =>
    let (value, next) := piece.binding.expression.value model data
    let (text, final) := showPieces model next pieces
    (piece.literal.text ++ piece.binding.shown value ++ text, final)

/-- What a page shows, and the data at the end. -/
def Page.meaning (model : Model) (page : Page) : Text × Data :=
  let (text, data) := showPieces model model.data page.pieces
  (text ++ page.last.text, data)

end ComponentMarkup.Template.Surface

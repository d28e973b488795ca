import ComponentMarkup.Json.Value
import ComponentMarkup.Text.Blank
import ComponentMarkup.Text.Word

/-!
# Expressions of bindings

An expression is a head and filters, separated by bars. The head is a call or an operand; a filter
is a name or a call. Arguments are operands separated by commas. Bars and commas inside quotes or
parentheses do not separate. An operand is a quoted text, a number, `true`, `false`, `null`, or a
path into the data whose steps are separated by points.
-/

namespace ComponentMarkup.Template

open Text

/-- Which quote is open, and how many parentheses are. -/
structure Nesting where
  quote : Option Char
  depth : Nat
  deriving DecidableEq, Repr

namespace Nesting

def top : Nesting := ⟨none, 0⟩

/-- The nesting behind a character. A closing parenthesis that nothing opened changes nothing. -/
def next (nesting : Nesting) (c : Char) : Nesting :=
  match nesting.quote with
  | some quote => if c = quote then { nesting with quote := none } else nesting
  | none =>
    if c = '\'' || c = '"' then { nesting with quote := some c }
    else if c = '(' then { nesting with depth := nesting.depth + 1 }
    else if c = ')' then { nesting with depth := nesting.depth - 1 }
    else nesting

end Nesting

/-- Puts a character in front of the first piece. -/
def consPiece (c : Char) : List Text → List Text
  | [] => [[c]]
  | piece :: pieces => (c :: piece) :: pieces

/-- The pieces between the separators outside quotes and parentheses. -/
def splitFrom (separator : Char) (nesting : Nesting) : Text → List Text
  | [] => [[]]
  | c :: rest =>
    if c = separator && nesting = .top then [] :: splitFrom separator .top rest
    else consPiece c (splitFrom separator (nesting.next c) rest)

/-- The pieces of a text; white space without separator has none. -/
def splitTopLevel (separator : Char) (text : Text) : List Text :=
  match splitFrom separator .top text with
  | [piece] => if isAllBlank piece then [] else [piece]
  | pieces => pieces

/-- A value that is known beforehand or looked up in the data. -/
inductive Operand where
  | literal (value : Json.Value)
  | path (steps : List Text)
  deriving Repr

/-- A name with arguments. -/
structure Call where
  name : Text
  arguments : List Operand
  deriving Repr

inductive Head where
  | call (call : Call)
  | operand (operand : Operand)
  deriving Repr

/-- A head and the filters that its value goes through. -/
structure Expression where
  head : Head
  filters : List Call
  deriving Repr

/-- The steps of a path, without the white space around each. -/
def pathSteps (text : Text) : List Text := (splitOn '.' text).map trim

/-- A text of at least two characters that the same quote begins and ends. -/
def unquote? : Text → Option Text
  | c :: rest =>
    if (c = '\'' || c = '"') && rest.getLast? = some c then some rest.dropLast else none
  | [] => none

def isLiteral (token : Text) : Bool :=
  token = "true".toList || token = "false".toList || token = "null".toList
    || match token with
      | c :: _ => c.isDigit || c = '-'
      | [] => false

namespace Operand

/-- Reads an operand. What looks like a number and is none is a path. -/
def read (text : Text) : Operand :=
  let token := trim text
  match unquote? token with
  | some text => literal (.string text)
  | none =>
    match if isLiteral token then Json.Value.read? token else none with
    | some value => literal value
    | none => path (pathSteps token)

end Operand

def startsName (c : Char) : Bool := c.isAlpha || c = '_' || c = '$'

def continuesName (c : Char) : Bool := isWord c || c = '$'

/-- A name and the text between the parentheses behind it, if that is all there is. -/
def callParts? : Text → Option (Text × Text)
  | [] => none
  | c :: rest =>
    if startsName c then
      match (rest.dropWhile continuesName).dropWhile isBlank with
      | '(' :: inside =>
        if inside.getLast? = some ')' then
          some (c :: rest.takeWhile continuesName, inside.dropLast)
        else none
      | _ => none
    else none

namespace Call

/-- Reads a call. -/
def read? (text : Text) : Option Call :=
  (callParts? text).map fun (name, inside) =>
    ⟨name, (splitTopLevel ',' inside).map Operand.read⟩

/-- Reads a filter, which may stand without arguments. -/
def readFilter (text : Text) : Call :=
  let stage := trim text
  (read? stage).getD ⟨stage, []⟩

end Call

/-- Reads the head of an expression. -/
def Head.read (text : Text) : Head :=
  match Call.read? (trim text) with
  | some c => .call c
  | none => .operand (Operand.read text)

/-- Reads an expression; white space is none. -/
def Expression.read? (text : Text) : Option Expression :=
  match splitTopLevel '|' text with
  | [] => none
  | head :: filters => some ⟨Head.read head, filters.map Call.readFilter⟩

end ComponentMarkup.Template

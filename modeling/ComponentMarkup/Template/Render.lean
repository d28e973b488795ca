import ComponentMarkup.Attributes
import ComponentMarkup.Model.Basic
import ComponentMarkup.Template.Binding
import ComponentMarkup.Template.Expression

/-!
# Filling a template

Bindings are filled from left to right, and the data is handed from each call to the next. A path
that leads nowhere, a method that is not there and an empty expression give null, which is shown
as nothing; a filter that is not there changes nothing.

A scoped template is wrapped in an element that has the template's attributes and the id as its
first class.
-/

namespace ComponentMarkup.Template

open Text Json

def Operand.value (data : Data) : Operand → Value
  | literal value => value
  | path steps => (Data.lookup? data steps).getD .null

def Head.eval (model : Model) : Head → Value × Model
  | .call c => (model.call? c.name (c.arguments.map (Operand.value model.data))).getD (.null, model)
  | .operand o => (o.value model.data, model)

/-- Sends a value through a filter. -/
def applyFilter (state : Value × Model) (filter : Call) : Value × Model :=
  let (value, model) := state
  (model.filter? filter.name value (filter.arguments.map (Operand.value model.data))).getD
    (value, model)

def Expression.eval (model : Model) (expression : Expression) : Value × Model :=
  expression.filters.foldl applyFilter (expression.head.eval model)

/-- The value of the text of an expression. -/
def evaluate (model : Model) (text : Text) : Value × Model :=
  match Expression.read? text with
  | some expression => expression.eval model
  | none => (.null, model)

/-- What a binding puts into the page. -/
def Binding.fill (model : Model) (binding : Binding) : Text × Model :=
  let (value, model) := evaluate model binding.expression
  (if binding.isEscaped then escapeHtml value.display else value.display, model)

/-- Fills the parts of a template from left to right. -/
def fillParts (model : Model) : List Part → Text × Model
  | [] => ([], model)
  | .copied c :: rest =>
    let (text, model) := fillParts model rest
    (c :: text, model)
  | .bound binding :: rest =>
    let (value, model) := binding.fill model
    let (text, model) := fillParts model rest
    (value ++ text, model)

/-- Fills a template. -/
def fill (model : Model) (content : Text) : Text × Model := fillParts model (parts content)

/-- What is known of a template when it is rendered. -/
structure Input where
  attributes : Attributes
  content : Text
  id : Text
  isScoped : Bool
  deriving DecidableEq, Repr

def className : Text := "class".toList

/-- The id as the first class, before the classes that are there. -/
def scopeAttributes (id : Text) (attributes : Attributes) : Attributes :=
  let classes := trim ((Dict.find? attributes className).getD [])
  Dict.insert (Dict.erase attributes className) className
    (if classes.isEmpty then id else id ++ ' ' :: classes)

/-- Wraps a page in the element that scoped styles apply to. -/
def wrap (id : Text) (attributes : Attributes) (page : Text) : Text :=
  "<div".toList ++ Attributes.render (scopeAttributes id attributes) ++ '>' :: page
    ++ "</div>".toList

/-- Renders a template: the page and the model afterwards. -/
def render (model : Model) (input : Input) : Text × Model :=
  let (page, model) := fill model input.content
  (if input.isScoped then wrap input.id input.attributes page else page, model)

end ComponentMarkup.Template

import ComponentMarkup.Dict
import ComponentMarkup.Json.Value

/-!
# Models

A model is what a component's template is filled from: its data, the methods and filters that
expressions may call, the child components by tag, and the names of the data that a parent hands
down. A method receives the data and may change it; a filter is a method whose first argument is
the value that goes through it.
-/

namespace ComponentMarkup

/-- The data of a component, by key. -/
abbrev Data := Json.Object

/-- Receives the data and arguments, gives a value and the data afterwards. -/
abbrev Method := Data → List Json.Value → Json.Value × Data

abbrev Methods := Dict Method

/-- Tag names of child components with the references of their files. -/
abbrev ComponentMap := Dict Text

structure Model where
  data : Data
  methods : Methods
  filters : Methods
  components : ComponentMap
  props : List Text

namespace Model

def empty : Model := ⟨[], [], [], [], []⟩

/-- Calls a method; there may be none of this name. -/
def call? (model : Model) (name : Text) (arguments : List Json.Value) :
    Option (Json.Value × Model) :=
  (Dict.find? model.methods name).map fun method =>
    let (value, data) := method model.data arguments
    (value, { model with data })

/-- Sends a value through a filter; there may be none of this name. -/
def filter? (model : Model) (name : Text) (value : Json.Value) (arguments : List Json.Value) :
    Option (Json.Value × Model) :=
  (Dict.find? model.filters name).map fun method =>
    let (value, data) := method model.data (value :: arguments)
    (value, { model with data })

end Model

namespace Data

/-- A place in an array: digits, behind at most one plus sign. -/
def index? (step : Text) : Option Nat :=
  let digits := match step with
    | '+' :: digits => digits
    | _ => step
  if digits.isEmpty || !digits.all Char.isDigit then none
  else some (Nat.ofDigitChars 10 digits 0)

/-- One step into a value. -/
def step? (value : Json.Value) (step : Text) : Option Json.Value :=
  match value with
  | .object members => Dict.find? members step
  | .array items => (index? step).bind fun place => items[place]?
  | _ => none

/-- The value at the end of a path. -/
def lookup? (data : Data) : List Text → Option Json.Value
  | [] => none
  | first :: steps => (Dict.find? data first).bind fun value => steps.foldlM step? value

end Data

end ComponentMarkup

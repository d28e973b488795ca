import ComponentMarkup.Model.Basic
import ComponentMarkup.Path

/-!
# Model definitions

A definition says what a component declares; whatever it leaves open is taken from the definition
below it. Data are fixed or come from a producer, whose values follow one after the other.

A definition is read from a JSON object. Anything else declares nothing, and a declaration of the
wrong shape counts as empty.
-/

namespace ComponentMarkup

/-- Where a component's own data come from. -/
inductive DataSource where
  | fixed (data : Data)
  /-- A producer that has been called `calls` times; the next value is `values calls`. -/
  | producer (calls : Nat) (values : Nat → Json.Value)

namespace DataSource

/-- The data for one rendering. A value that is no object gives none. -/
def data : DataSource → Data
  | fixed data => data
  | producer calls values => (values calls).members

/-- The source after it has been asked once. -/
def advance : DataSource → DataSource
  | fixed data => fixed data
  | producer calls values => producer (calls + 1) values

end DataSource

/-- What a component declares. -/
structure Definition where
  data : Option DataSource
  methods : Option Methods
  filters : Option Methods
  /-- Changes the data once, before the template is filled. -/
  created : Option (Data → Data)
  components : Option ComponentMap
  props : Option (List Text)

namespace Definition

def empty : Definition := ⟨none, none, none, none, none, none⟩

/-- What `upper` declares over what `lower` declares. -/
def overlay (lower upper : Definition) : Definition :=
  { data := upper.data.or lower.data
    methods := upper.methods.or lower.methods
    filters := upper.filters.or lower.filters
    created := upper.created.or lower.created
    components := upper.components.or lower.components
    props := upper.props.or lower.props }

/-- The definition after its data have been asked for once. -/
def advance (definition : Definition) : Definition :=
  { definition with data := definition.data.map DataSource.advance }

def textOf? : Json.Value → Option Text
  | .string text => some text
  | _ => none

/-- Components by tag, or a list of files whose stems are the tags. -/
def componentsOf : Json.Value → ComponentMap
  | .object members =>
    Dict.ofPairs
      (members.filterMap fun member => (textOf? member.2).map fun file => (member.1, file))
  | .array items =>
    Dict.ofPairs ((items.filterMap textOf?).map fun file => (Path.tag file, file))
  | _ => []

def propsOf : Json.Value → List Text
  | .array items => items.filterMap textOf?
  | _ => []

/-- The definition that a value declares. -/
def ofValue : Json.Value → Definition
  | .object members =>
    let find := Dict.find? members
    { empty with
      data := (find "data".toList).map fun value => .fixed value.members
      components := (find "components".toList).map componentsOf
      props := (find "props".toList).map propsOf }
  | _ => empty

/-- Reads a definition; there is none in a text that is no JSON. -/
def read? (text : Text) : Option Definition := (Json.Value.read? text).map ofValue

/-- The model for one rendering: the caller's data over the component's own. -/
def model (definition : Definition) (overrides : Data) : Model :=
  let own := (definition.data.map DataSource.data).getD []
  let data := Json.Object.overlay own overrides
  { data := (definition.created.map fun change => change data).getD data
    methods := definition.methods.getD []
    filters := definition.filters.getD []
    components := definition.components.getD []
    props := definition.props.getD [] }

end Definition

end ComponentMarkup

import ComponentMarkup.FileTree
import ComponentMarkup.Model.Definition

/-!
# Model hosts

A host finds the definition of a component. A sidecar is the file beside the component with the
same stem and the host's extension; what is registered for a component is laid over its sidecar.
A sidecar that cannot be read declares nothing. Rendering a component depends on its sidecar even
where there is none.
-/

namespace ComponentMarkup

/-- Registered definitions and the extension of sidecars. -/
structure Host where
  registered : List (Path × Definition)
  extension : Text

namespace Host

/-- A host with nothing registered. -/
def ofExtension (extension : Text) : Host := ⟨[], extension⟩

def default : Host := ofExtension "json".toList

/-- The path that registered definitions are kept under: the canonical one, if there is one. -/
def key (tree : FileTree) (path : Path) : Path := (tree.canonical? path).getD path

/-- Puts a definition in the place of the one with the same path, or behind all others. -/
def putDefinition : List (Path × Definition) → Path → Definition → List (Path × Definition)
  | [], path, definition => [(path, definition)]
  | (p, old) :: rest, path, definition =>
    if Path.same p path then (p, definition) :: rest
    else (p, old) :: putDefinition rest path definition

/-- Registers a definition for a component. -/
def register (host : Host) (tree : FileTree) (component : Path) (definition : Definition) : Host :=
  { host with registered := putDefinition host.registered (key tree component) definition }

def registered? (host : Host) (tree : FileTree) (component : Path) : Option Definition :=
  let path := key tree component
  (host.registered.find? fun entry => Path.same entry.1 path).map Prod.snd

def sidecar (host : Host) (component : Path) : Path :=
  Path.withExtension component host.extension

/-- The definition in the sidecar of a component. -/
def sidecarDefinition? (host : Host) (tree : FileTree) (component : Path) : Option Definition :=
  let path := host.sidecar component
  if Path.same path component then none
  else match tree.read path with
    | .ok text => Definition.read? text
    | .error _ => none

/-- The definition of a component. -/
def definition? (host : Host) (tree : FileTree) (component : Path) : Option Definition :=
  match host.sidecarDefinition? tree component, host.registered? tree component with
  | some lower, some upper => some (lower.overlay upper)
  | lower, upper => upper.or lower

/-- The files other than the component itself that its definition depends on. -/
def dependencies (host : Host) (component : Path) : List Path := [host.sidecar component]

/-- The host after the registered definition of a component has been asked for its data. -/
def advance (host : Host) (tree : FileTree) (component : Path) : Host :=
  let path := key tree component
  { host with
    registered := host.registered.map fun entry =>
      if Path.same entry.1 path then (entry.1, entry.2.advance) else entry }

/-- The model of a component for one rendering, and the host afterwards. -/
def model (host : Host) (tree : FileTree) (component : Path) (overrides : Data) : Model × Host :=
  (((host.definition? tree component).getD .empty).model overrides, host.advance tree component)

/-- The names of the data that a component takes from its parent. -/
def props (host : Host) (tree : FileTree) (component : Path) : List Text :=
  ((host.definition? tree component).bind Definition.props).getD []

end Host

end ComponentMarkup

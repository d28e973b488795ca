import ComponentMarkup.Cache.Basic
import ComponentMarkup.Component.Input
import ComponentMarkup.Model.Host
import ComponentMarkup.Options
import ComponentMarkup.Template.Render

/-!
# Rendering a component

A component is rendered from its segments and its model. Its template is filled first, then each
child whose tag occurs in the page is rendered with what its tag gives it, and the outputs take
the places of the tags; equal tags are rendered once. Script and style follow the page. A
component that is missing or cannot be read renders as nothing.

Components are nested as deep as the options allow; a child below that renders as nothing.

Every rendering gives, beside its output, the files that the output depends on: the sidecar of the
model, the sources of segments, and for each child the child with its dependencies, or the path
where a missing child would be. The cache, the host and a record of all calls of the three
renderers are handed from each rendering to the next.
-/

namespace ComponentMarkup.Component

open Text

/-- A call of one of the three renderers, with what it was given and what it returned. -/
inductive Call where
  | template (input : Template.Input) (output : Text)
  | script (input : Script.Input) (output : Text)
  | style (input : Style.Input) (output : Text)
  deriving DecidableEq, Repr

def Call.kind : Call → SegmentKind
  | template .. => .template
  | script .. => .script
  | style .. => .style

/-- What is handed from one rendering to the next. -/
structure State where
  cache : Cache
  host : Host
  /-- The calls of renderers so far, in order. -/
  calls : List Call

/-- What a component was rendered to, and what that depends on. -/
structure Rendered where
  output : Text
  dependencies : List Dependency
  deriving DecidableEq, Repr

def Rendered.nothing : Rendered := ⟨[], []⟩

/-- What renderings share. -/
structure Setting where
  tree : FileTree
  options : Options

def Setting.styleRenderer (setting : Setting) : Style.Renderer :=
  ⟨setting.options.styleOutput, setting.options.basePath⟩

/-- What a component is asked for: its reference in a directory, data, and the attributes of its
tag. -/
structure Request where
  dir : Path
  reference : Path
  data : Data
  invocation : Attributes

/-- A way to render a component. -/
abbrev Renderer := State → Request → Rendered × State

/-- The outputs of children by the text of their tags, in the order in which they were found, and
what they depend on. -/
structure Children where
  outputs : Dict Text
  dependencies : List Dependency
  deriving DecidableEq, Repr

/-- A page whose children are rendered: its component's directory and data, and the attributes
that its component was given. -/
structure Page where
  dir : Path
  data : Data
  invocation : Attributes

/-- Renders the child of one tag; `child?` renders children where they may be nested. -/
def renderTag (setting : Setting) (child? : Option Renderer) (page : Page) (file : Path)
    (state : State) (tag : Tag.Occurrence) : Rendered × State :=
  match resolve? setting.tree setting.options.extension page.dir file with
  | none =>
    (⟨[], [Dependency.of setting.tree (Reference.path setting.tree page.dir file)]⟩, state)
  | some path =>
    match child? with
    | none => (.nothing, state)
    | some child =>
      let attributes := Attributes.parse tag.attributes
      let data := childData (state.host.props setting.tree path) page.invocation page.data
        attributes tag.innerText
      child state ⟨page.dir, path, data, attributes⟩

/-- Renders the child of a tag unless one with the same text has been rendered. -/
def addTag (setting : Setting) (child? : Option Renderer) (page : Page) (file : Path)
    (found : Children × State) (tag : Tag.Occurrence) : Children × State :=
  let (children, state) := found
  if Dict.contains children.outputs tag.text then found
  else
    let (rendered, state) := renderTag setting child? page file state tag
    (⟨Dict.insert children.outputs tag.text rendered.output,
      children.dependencies ++ rendered.dependencies⟩, state)

/-- Renders the children of a page, component by component. -/
def renderChildren (setting : Setting) (child? : Option Renderer) (page : Page)
    (components : ComponentMap) (html : Text) (state : State) : Children × State :=
  components.foldl
    (fun found component =>
      (Tag.occurrences .ignored component.1 html).foldl
        (addTag setting child? page component.2) found)
    (⟨[], []⟩, state)

/-- Fills a template and records the call. -/
def callTemplate (model : Model) (input : Template.Input) (state : State) :
    Text × Model × State :=
  let (output, model) := Template.render model input
  (output, model, { state with calls := state.calls ++ [.template input output] })

def callScript (input : Script.Input) (state : State) : Text × State :=
  let output := Script.render input
  (output, { state with calls := state.calls ++ [.script input output] })

def callStyle (renderer : Style.Renderer) (input : Style.Input) (state : State) : Text × State :=
  let output := renderer.render input
  (output, { state with calls := state.calls ++ [.style input output] })

/-- Renders the script, if scripts are written. -/
def renderScript (setting : Setting) (id : Text) (segment : Segment) (state : State) :
    Text × State :=
  if setting.options.isEnabled .script then
    callScript ⟨segment.attributes, segment.content, id⟩ state
  else ([], state)

/-- Renders the style, if styles are written. Its text is filled like a template first, unless it
is blank. -/
def renderStyle (setting : Setting) (id : Text) (isScoped : Bool) (model : Model)
    (segment : Segment) (state : State) : Text × State :=
  if setting.options.isEnabled .style then
    let (content, state) :=
      if isAllBlank segment.content then ([], state)
      else
        let (content, _, state) := callTemplate model ⟨[], segment.content, id, false⟩ state
        (content, state)
    callStyle setting.styleRenderer ⟨segment.attributes, content, id, isScoped⟩ state
  else ([], state)

/-- Renders the component of a file from the text of the file. -/
def renderSource (setting : Setting) (child? : Option Renderer) (path : Path) (request : Request)
    (source : Text) (state : State) : Rendered × State :=
  let dir := Path.parent path
  let segments := Segments.extract setting.tree dir source
  let (model, host) := state.host.model setting.tree path request.data
  let state := { state with host }
  let isScoped := segments.style.isScoped || setting.options.isScoped
  let id := Path.componentId path
  let own := (host.dependencies path ++ segments.sources).map (Dependency.of setting.tree)
  let (html, model, state) := callTemplate model
    ⟨segments.template.attributes, segments.template.content, id,
      isScoped || setting.options.isTemplateScoped⟩ state
  let (children, state) :=
    renderChildren setting child? ⟨dir, model.data, request.invocation⟩ model.components html state
  let page :=
    if setting.options.isEnabled .template then substitute html children.outputs
    else children.outputs.flatMap Prod.snd
  let (script, state) := renderScript setting id segments.script state
  let (style, state) := renderStyle setting id isScoped model segments.style state
  (⟨trim (page ++ script ++ style), own ++ children.dependencies⟩, state)

/-- Renders a component, or takes its entry from the cache. What was rendered is put into the
cache; `child?` renders its children. -/
def renderWith (setting : Setting) (child? : Option Renderer) : Renderer := fun state request =>
  match resolve? setting.tree setting.options.extension request.dir request.reference with
  | none => (.nothing, state)
  | some path =>
    let modified := setting.tree.stamp path
    let fingerprint := Cache.fingerprint request.data request.invocation
    let (hit, cache) := state.cache.get setting.tree path modified fingerprint
    let state := { state with cache }
    match hit with
    | some entry => (⟨entry.output, entry.dependencies ++ [⟨path, modified⟩]⟩, state)
    | none =>
      match setting.tree.read path with
      | .error _ => (.nothing, state)
      | .ok source =>
        let (rendered, state) := renderSource setting child? path request source state
        let entry : Cache.Entry :=
          ⟨modified, fingerprint, rendered.dependencies, rendered.output⟩
        ({ rendered with dependencies := rendered.dependencies ++ [⟨path, modified⟩] },
          { state with cache := state.cache.set path entry })

/-- Renders a component below which components may be nested `depth` deep. -/
def render (setting : Setting) : (depth : Nat) → Renderer
  | 0 => renderWith setting none
  | depth + 1 => renderWith setting (some (render setting depth))

end ComponentMarkup.Component

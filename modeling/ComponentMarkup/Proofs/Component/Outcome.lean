import ComponentMarkup.Proofs.Component.Visits
import ComponentMarkup.Proofs.Model.Steady
import ComponentMarkup.Proofs.Template.Components
import Mathlib.Data.Option.Basic

/-!
# Outcomes of components

The outcome of a request is what the component comes to if nothing is taken from a cache. It is
computed in two steps: a draft holds all that is known before the children are rendered, and the
results of the children finish the draft. Rendering the text of a component file is the same two
steps, with the children rendered one after the other through the state.

A request asks for other requests, one for each tag of its page whose component can be found. The
askings of a request are all requests that its outcome is made from, each with the depth that
remains below it.
-/

namespace ComponentMarkup

/-- The child components that a component declares. -/
def Host.declared (host : Host) (tree : FileTree) (path : Path) : ComponentMap :=
  (((host.definition? tree path).getD .empty).components).getD []

namespace Component

open Text

/-- The component file that a request names. -/
def Request.path? (setting : Setting) (request : Request) : Option Path :=
  resolve? setting.tree setting.options.extension request.dir request.reference

/-- What is known of a component before its children are rendered. -/
structure Draft where
  path : Path
  invocation : Attributes
  data : Data
  components : ComponentMap
  html : Text
  script : Text
  style : Text
  /-- The files other than children that the component depends on. -/
  own : List Dependency

namespace Draft

def page (draft : Draft) : Page := ⟨Path.parent draft.path, draft.data, draft.invocation⟩

def visits (draft : Draft) : List Visit := Component.visits draft.components draft.html

/-- The page with the outputs of its children, its script and its style. -/
def output (setting : Setting) (draft : Draft) (outputs : Dict Text) : Text :=
  let page :=
    if setting.options.isEnabled .template then substitute draft.html outputs
    else outputs.flatMap Prod.snd
  trim (page ++ draft.script ++ draft.style)

/-- What a draft comes to with the results of its visits. -/
def finish (setting : Setting) (draft : Draft) (results : List Rendered) : Rendered :=
  ⟨draft.output setting (outputsOf draft.visits results),
    draft.own ++ results.flatMap Rendered.dependencies
      ++ [Dependency.of setting.tree draft.path]⟩

end Draft

/-- The script of a component, if scripts are written. -/
def scriptText (setting : Setting) (id : Text) (segment : Segment) : Text :=
  if setting.options.isEnabled .script then
    Script.render ⟨segment.attributes, segment.content, id⟩
  else []

/-- The style of a component, if styles are written. -/
def styleText (setting : Setting) (id : Text) (isScoped : Bool) (model : Model)
    (segment : Segment) : Text :=
  if setting.options.isEnabled .style then
    let content :=
      if isAllBlank segment.content then []
      else (Template.render model ⟨[], segment.content, id, false⟩).1
    setting.styleRenderer.render ⟨segment.attributes, content, id, isScoped⟩
  else []

/-- The draft of a component from the text of its file. -/
def draft (setting : Setting) (host : Host) (path : Path) (data : Data) (invocation : Attributes)
    (source : Text) : Draft :=
  let segments := Segments.extract setting.tree (Path.parent path) source
  let isScoped := segments.style.isScoped || setting.options.isScoped
  let id := Path.componentId path
  let filled := Template.render (host.model setting.tree path data).1
    ⟨segments.template.attributes, segments.template.content, id,
      isScoped || setting.options.isTemplateScoped⟩
  { path
    invocation
    data := filled.2.data
    components := filled.2.components
    html := filled.1
    script := scriptText setting id segments.script
    style := styleText setting id isScoped filled.2 segments.style
    own := (host.dependencies path ++ segments.sources).map (Dependency.of setting.tree) }

/-- The draft of the component that a request names, if it can be found and read. -/
def draft? (setting : Setting) (host : Host) (request : Request) : Option Draft :=
  (request.path? setting).bind fun path ↦
    match setting.tree.read path with
    | .ok source => some (draft setting host path request.data request.invocation source)
    | .error _ => none

/-- What the child of a tag is asked for. -/
def childRequest (setting : Setting) (host : Host) (page : Page) (tag : Tag.Occurrence)
    (path : Path) : Request :=
  let attributes := Attributes.parse tag.attributes
  ⟨page.dir, path,
    childData (host.props setting.tree path) page.invocation page.data attributes tag.innerText,
    attributes⟩

/-- What the tags of a page ask for. -/
def Draft.requests (setting : Setting) (host : Host) (draft : Draft) : List Request :=
  draft.visits.filterMap fun visit ↦
    (resolve? setting.tree setting.options.extension draft.page.dir visit.file).map
      (childRequest setting host draft.page visit.tag)

/-- What the tags in the page of a component ask for. -/
def childRequests (setting : Setting) (host : Host) (request : Request) : List Request :=
  ((draft? setting host request).map (Draft.requests setting host)).getD []

/-- A draft is made from what the host gives. -/
theorem draft_now (setting : Setting) (host : Host) (path : Path) (data : Data)
    (invocation : Attributes) (source : Text) :
    draft setting host.now path data invocation source =
      draft setting host path data invocation source := by
  unfold draft
  rw [Host.model_now]
  rfl

/-- The children of a draft are those that its component declares. -/
theorem draft_components (setting : Setting) (host : Host) (path : Path) (data : Data)
    (invocation : Attributes) (source : Text) :
    (draft setting host path data invocation source).components =
      host.declared setting.tree path :=
  Template.render_components _ _

section Outcome

variable (setting : Setting) (host : Host)

/-- The outcome of the child of a tag; `child?` gives outcomes where children may be nested. -/
def outcomeTag (child? : Option (Request → Rendered)) (page : Page) (visit : Visit) : Rendered :=
  match resolve? setting.tree setting.options.extension page.dir visit.file with
  | none =>
    ⟨[], [Dependency.of setting.tree (Reference.path setting.tree page.dir visit.file)]⟩
  | some path =>
    match child? with
    | none => .nothing
    | some child => child (childRequest setting host page visit.tag path)

def outcomeWith (child? : Option (Request → Rendered)) (request : Request) : Rendered :=
  match draft? setting host request with
  | none => .nothing
  | some draft =>
    draft.finish setting (draft.visits.map (outcomeTag setting host child? draft.page))

/-- What a component comes to without a cache, with components nested `depth` deep below it. -/
def outcome : (depth : Nat) → Request → Rendered
  | 0 => outcomeWith setting host none
  | depth + 1 => outcomeWith setting host (some (outcome depth))

/-- A request with the depth that remains below it. -/
structure Asking where
  depth : Nat
  request : Request

def Asking.outcome (asking : Asking) : Rendered :=
  Component.outcome setting host asking.depth asking.request

/-- A request and all that it asks for, directly or through others. -/
def asked : (depth : Nat) → Request → List Asking
  | 0, request => [⟨0, request⟩]
  | depth + 1, request =>
    ⟨depth + 1, request⟩ :: (childRequests setting host request).flatMap (asked depth)

theorem self_mem_asked (depth : Nat) (request : Request) :
    ⟨depth, request⟩ ∈ asked setting host depth request := by
  cases depth with
  | zero => exact List.mem_singleton_self _
  | succ depth => exact List.mem_cons_self

/-- What an asking asks for is asked for by whatever asked for it. -/
theorem mem_asked_of_childRequests {depth n : Nat} {request r child : Request}
    (h : ⟨n + 1, r⟩ ∈ asked setting host depth request)
    (hchild : child ∈ childRequests setting host r) :
    ⟨n, child⟩ ∈ asked setting host depth request := by
  induction depth generalizing request with
  | zero => simp [asked] at h
  | succ depth ih =>
    rw [asked, List.mem_cons, List.mem_flatMap] at h ⊢
    rcases h with h | ⟨next, hnext, h⟩
    · rw [Asking.mk.injEq, Nat.add_right_cancel_iff] at h
      obtain ⟨rfl, rfl⟩ := h
      exact Or.inr ⟨child, hchild, self_mem_asked setting host n child⟩
    · exact Or.inr ⟨next, hnext, ih h⟩

/-- What asks for nothing is all that is asked for. -/
theorem asked_of_childRequests_eq_nil {setting : Setting} {host : Host} {request : Request}
    (h : childRequests setting host request = []) (depth : Nat) :
    asked setting host depth request = [⟨depth, request⟩] := by
  cases depth with
  | zero => rfl
  | succ depth => rw [asked, h, List.flatMap_nil]

end Outcome

/-! ## Rendering finishes a draft -/

/-- The renderer of children with this depth below the component itself. -/
def childRenderer (setting : Setting) : (depth : Nat) → Option Renderer
  | 0 => none
  | depth + 1 => some (render setting depth)

/-- The outcomes of children with this depth below the component itself. -/
def childOutcome (setting : Setting) (host : Host) : (depth : Nat) → Option (Request → Rendered)
  | 0 => none
  | depth + 1 => some (outcome setting host depth)

theorem render_eq (setting : Setting) (depth : Nat) :
    render setting depth = renderWith setting (childRenderer setting depth) := by
  cases depth <;> rfl

theorem outcome_eq (setting : Setting) (host : Host) (depth : Nat) :
    outcome setting host depth = outcomeWith setting host (childOutcome setting host depth) := by
  cases depth <;> rfl

/-- The call of the script renderer, if scripts are written. -/
def scriptCalls (setting : Setting) (id : Text) (segment : Segment) : List Call :=
  if setting.options.isEnabled .script then
    [.script ⟨segment.attributes, segment.content, id⟩ (scriptText setting id segment)]
  else []

/-- The text of a style sheet, filled like a template unless it is blank. -/
def styleContent (id : Text) (model : Model) (segment : Segment) : Text :=
  if isAllBlank segment.content then []
  else (Template.render model ⟨[], segment.content, id, false⟩).1

/-- The calls that a style takes, if styles are written. -/
def styleCalls (setting : Setting) (id : Text) (isScoped : Bool) (model : Model)
    (segment : Segment) : List Call :=
  if setting.options.isEnabled .style then
    let content := styleContent id model segment
    let filling :=
      if isAllBlank segment.content then []
      else [.template ⟨[], segment.content, id, false⟩ content]
    filling ++ [.style ⟨segment.attributes, content, id, isScoped⟩
      (styleText setting id isScoped model segment)]
  else []

theorem renderScript_eq (setting : Setting) (id : Text) (segment : Segment) (state : State) :
    renderScript setting id segment state =
      (scriptText setting id segment,
        { state with calls := state.calls ++ scriptCalls setting id segment }) := by
  unfold renderScript scriptCalls scriptText callScript
  split
  · rfl
  · rw [List.append_nil]

theorem renderStyle_eq (setting : Setting) (id : Text) (isScoped : Bool) (model : Model)
    (segment : Segment) (state : State) :
    renderStyle setting id isScoped model segment state =
      (styleText setting id isScoped model segment,
        { state with calls := state.calls ++ styleCalls setting id isScoped model segment }) := by
  unfold renderStyle styleCalls styleText styleContent callStyle callTemplate
  by_cases hstyle : setting.options.isEnabled .style = true
  · by_cases hblank : isAllBlank segment.content = true
    · simp [hstyle, hblank]
    · simp [hstyle, hblank]
  · simp [hstyle]

/-- The calls that come behind the children of a component. -/
def closingCalls (setting : Setting) (host : Host) (path : Path) (data : Data) (source : Text) :
    List Call :=
  let segments := Segments.extract setting.tree (Path.parent path) source
  let isScoped := segments.style.isScoped || setting.options.isScoped
  let id := Path.componentId path
  let filled := Template.render (host.model setting.tree path data).1
    ⟨segments.template.attributes, segments.template.content, id,
      isScoped || setting.options.isTemplateScoped⟩
  scriptCalls setting id segments.script ++ styleCalls setting id isScoped filled.2 segments.style

/-- What the template of a component file is filled from. -/
def templateInput (setting : Setting) (path : Path) (source : Text) : Template.Input :=
  let segments := Segments.extract setting.tree (Path.parent path) source
  let isScoped := segments.style.isScoped || setting.options.isScoped
  ⟨segments.template.attributes, segments.template.content, Path.componentId path,
    isScoped || setting.options.isTemplateScoped⟩

/-- The state in which the children of a component are rendered: the host has been asked for the
model, and the template has been filled. -/
def State.filled (setting : Setting) (path : Path) (request : Request) (source : Text)
    (state : State) : State :=
  let input := templateInput setting path source
  let html := (Template.render (state.host.model setting.tree path request.data).1 input).1
  { state with
    host := state.host.advance setting.tree path
    calls := state.calls ++ [.template input html] }

/-- A component file is rendered by rendering the children of its draft; what comes behind them
only adds calls of renderers. -/
theorem renderSource_eq_filled (setting : Setting) (child? : Option Renderer) (path : Path)
    (request : Request) (source : Text) (state : State) :
    let draft := draft setting state.host path request.data request.invocation source
    let rendered := renderVisits setting child? draft.page draft.visits
      (state.filled setting path request source)
    renderSource setting child? path request source state =
      (⟨draft.output setting (outputsOf draft.visits rendered.1),
        draft.own ++ rendered.1.flatMap Rendered.dependencies⟩,
        { rendered.2 with
          calls := rendered.2.calls ++ closingCalls setting state.host path request.data source }) := by
  let segments := Segments.extract setting.tree (Path.parent path) source
  let draft := draft setting state.host path request.data request.invocation source
  let isScoped := segments.style.isScoped || setting.options.isScoped
  let filled := callTemplate (state.host.model setting.tree path request.data).1
    (templateInput setting path source) { state with host := state.host.advance setting.tree path }
  let rendered := renderVisits setting child? draft.page draft.visits filled.2.2
  have hchildren : renderChildren setting child? draft.page draft.components draft.html filled.2.2 =
      (⟨outputsOf draft.visits rendered.1, rendered.1.flatMap Rendered.dependencies⟩,
        rendered.2) :=
    renderChildren_eq setting child? draft.page draft.components draft.html filled.2.2
  calc
    _ = (let found := renderChildren setting child? draft.page draft.components draft.html
            filled.2.2
          let script := renderScript setting (Path.componentId path) segments.script found.2
          let style := renderStyle setting (Path.componentId path) isScoped filled.2.1
            segments.style script.2
          let page :=
            if setting.options.isEnabled .template then substitute draft.html found.1.outputs
            else found.1.outputs.flatMap Prod.snd
          ((⟨trim (page ++ script.1 ++ style.1), draft.own ++ found.1.dependencies⟩ : Rendered),
            style.2)) := rfl
    _ = _ := by
      simp only [hchildren, renderScript_eq, renderStyle_eq, List.append_assoc rendered.2.calls]
      rfl

/-! ## Outcomes of drafts -/

section Readable

variable {setting : Setting} {host : Host} {request : Request} {path : Path} {source : Text}

theorem draft?_of_read (host : Host) (hpath : request.path? setting = some path)
    (hread : setting.tree.read path = .ok source) :
    draft? setting host request =
      some (draft setting host path request.data request.invocation source) := by
  simp [draft?, hpath, hread]

theorem draft?_of_path?_eq_none (host : Host) (hpath : request.path? setting = none) :
    draft? setting host request = none := by
  rw [draft?, hpath, Option.bind_none]

theorem draft?_of_unreadable (host : Host) (hpath : request.path? setting = some path)
    (hread : (setting.tree.read path).toOption = none) : draft? setting host request = none := by
  rw [draft?, hpath, Option.bind_some]
  cases h : setting.tree.read path with
  | error error => rfl
  | ok source => simp [h, Except.toOption] at hread

/-- A component that cannot be found or read comes to nothing. -/
theorem outcome_of_draft?_eq_none (h : draft? setting host request = none) (depth : Nat) :
    outcome setting host depth request = .nothing := by
  rw [outcome_eq, outcomeWith, h]

theorem outcome_of_draft? {draft : Draft} (h : draft? setting host request = some draft)
    (depth : Nat) :
    outcome setting host depth request =
      draft.finish setting (draft.visits.map
        (outcomeTag setting host (childOutcome setting host depth) draft.page)) := by
  rw [outcome_eq, outcomeWith, h]

/-- Where templates are written, a component comes to its page with the outputs of its children put
in, its script and its style. -/
theorem output_of_draft? (htemplate : setting.options.isEnabled .template = true) {draft : Draft}
    (h : draft? setting host request = some draft) (depth : Nat) :
    (outcome setting host depth request).output =
      trim (substitute draft.html (draft.visits.map fun visit ↦ (visit.tag.text,
        (outcomeTag setting host (childOutcome setting host depth) draft.page visit).output)) ++
          draft.script ++ draft.style) := by
  rw [outcome_of_draft? h, Draft.finish, Draft.output, if_pos htemplate, outputsOf_map]

/-- The child of a tag is among what the component asks for. -/
theorem childRequest_mem_childRequests {draft : Draft} (h : draft? setting host request = some draft)
    {visit : Visit} (hvisit : visit ∈ draft.visits) {child : Path}
    (hchild : resolve? setting.tree setting.options.extension draft.page.dir visit.file =
      some child) :
    childRequest setting host draft.page visit.tag child ∈ childRequests setting host request := by
  rw [childRequests, h, Option.map_some, Option.getD_some, Draft.requests, List.mem_filterMap]
  exact ⟨visit, hvisit, by rw [hchild, Option.map_some]⟩

end Readable

end Component

end ComponentMarkup

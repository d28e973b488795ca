import ComponentMarkup.Proofs.Component.Exits

/-!
# The calls that a rendering makes

A rendering that renders a component file calls the renderer of templates first, then come the
calls of the children, and the calls for the script and the style of the component come last. Of one
kind, script or style, a component makes one call of its own, behind those of its children.
-/

namespace ComponentMarkup.Component

open Text

/-- The calls of the renderer of one kind so far. -/
def State.callsOf (kind : SegmentKind) (state : State) : List Call :=
  state.calls.filter fun call ↦ call.kind = kind

def Call.output : Call → Text
  | .template _ output => output
  | .script _ output => output
  | .style _ output => output

/-- The call that a component makes of the renderer of a kind. -/
def ownCall (setting : Setting) (host : Host) (path : Path) (data : Data) (source : Text) :
    SegmentKind → Call :=
  let segments := Segments.extract setting.tree (Path.parent path) source
  let isScoped := segments.style.isScoped || setting.options.isScoped
  let id := Path.componentId path
  let input := templateInput setting path source
  let filled := Template.render (host.model setting.tree path data).1 input
  fun
    | .template => .template input filled.1
    | .script =>
      let script : Script.Input := ⟨segments.script.attributes, segments.script.content, id⟩
      .script script (Script.render script)
    | .style =>
      let style : Style.Input :=
        ⟨segments.style.attributes, styleContent id filled.2 segments.style, id, isScoped⟩
      .style style (setting.styleRenderer.render style)

section Own

variable {setting : Setting} (id : Text) (segment : Segment)

theorem filter_scriptCalls (kind : SegmentKind) :
    (scriptCalls setting id segment).filter (fun call ↦ call.kind = kind) =
      if kind = .script then scriptCalls setting id segment else [] := by
  unfold scriptCalls
  cases kind <;> split <;> simp [Call.kind]

/-- Of the calls for a style, the last one is of its kind. -/
theorem filter_styleCalls (isScoped : Bool) (model : Model) :
    (styleCalls setting id isScoped model segment).filter (fun call ↦ call.kind = .style) =
      if setting.options.isEnabled .style then
        [.style ⟨segment.attributes, styleContent id model segment, id, isScoped⟩
          (styleText setting id isScoped model segment)]
      else [] := by
  unfold styleCalls
  split
  · rw [List.filter_append]
    split <;> simp [Call.kind]
  · rfl

theorem filter_styleCalls_script (isScoped : Bool) (model : Model) :
    (styleCalls setting id isScoped model segment).filter (fun call ↦ call.kind = .script) =
      [] := by
  unfold styleCalls
  split
  · rw [List.filter_append]
    split <;> simp [Call.kind]
  · rfl

/-- Of a kind that is written, one call comes behind the children. -/
theorem filter_closingCalls {kind : SegmentKind} (hkind : kind ≠ .template)
    (henabled : setting.options.isEnabled kind = true) (host : Host) (path : Path) (data : Data)
    (source : Text) :
    (closingCalls setting host path data source).filter (fun call ↦ call.kind = kind) =
      [ownCall setting host path data source kind] := by
  rw [closingCalls, List.filter_append, filter_scriptCalls]
  cases kind with
  | template => exact absurd rfl hkind
  | script =>
    rw [filter_styleCalls_script, if_pos rfl, scriptCalls, if_pos henabled, scriptText,
      if_pos henabled]
    rfl
  | style =>
    rw [filter_styleCalls, if_neg (by decide), if_pos henabled, styleText, if_pos henabled]
    rfl

end Own

/-- A call is made from what the host gives. -/
theorem ownCall_now (setting : Setting) (host : Host) (path : Path) (data : Data) (source : Text)
    (kind : SegmentKind) :
    ownCall setting host.now path data source kind = ownCall setting host path data source kind := by
  unfold ownCall
  rw [Host.model_now]

/-- Of a kind that is written, a component file that is rendered makes one call, behind those of its
children. -/
theorem callsOf_rendered {setting : Setting} {kind : SegmentKind} (hkind : kind ≠ .template)
    (henabled : setting.options.isEnabled kind = true) (child? : Option Renderer) (state : State)
    (request : Request) (path : Path) (source : Text) :
    (rendered setting child? state request path source).callsOf kind =
      (childResults setting child? state request path source).2.callsOf kind ++
        [ownCall setting state.host path request.data source kind] := by
  rw [State.callsOf, rendered, List.filter_append, filter_closingCalls hkind henabled]
  rfl

/-! ## The record of calls grows -/

section Growth

variable {setting : Setting} {child? : Option Renderer}
  (hchild : ∀ child ∈ child?, ∀ state request, state.calls <+: (child state request).2.calls)

include hchild

theorem calls_prefix_renderTag (page : Page) (file : Path) (state : State) (tag : Tag.Occurrence) :
    state.calls <+: (renderTag setting child? page file state tag).2.calls := by
  unfold renderTag
  cases resolve? setting.tree setting.options.extension page.dir file with
  | none => exact List.prefix_rfl
  | some path =>
    cases child? with
    | none => exact List.prefix_rfl
    | some child => exact hchild child rfl _ _

theorem calls_prefix_renderVisits (page : Page) (visits : List Visit) (state : State) :
    state.calls <+: (renderVisits setting child? page visits state).2.calls := by
  induction visits generalizing state with
  | nil => exact List.prefix_rfl
  | cons visit rest ih =>
    exact (calls_prefix_renderTag hchild page visit.file state visit.tag).trans (ih _)

theorem calls_prefix_renderWith (state : State) (request : Request) :
    state.calls <+: (renderWith setting child? state request).2.calls := by
  have hexit := exit_renderWith setting child? state request
  generalize renderWith setting child? state request = ending at hexit ⊢
  cases hexit with
  | missing => exact List.prefix_rfl
  | reused => exact List.prefix_rfl
  | unreadable => exact List.prefix_rfl
  | @rendered path source h =>
    let draft := drafted setting state request path source
    have hbegun : state.calls <+: (begun setting state request path source).calls :=
      List.prefix_append _ _
    have hchildren : (begun setting state request path source).calls <+:
        (childResults setting child? state request path source).2.calls :=
      calls_prefix_renderVisits hchild draft.page draft.visits _
    exact (hbegun.trans hchildren).trans (List.prefix_append _ _)

end Growth

/-- A rendering adds calls behind those that have been made. -/
theorem calls_prefix_render (setting : Setting) (depth : Nat) (state : State) (request : Request) :
    state.calls <+: (render setting depth state request).2.calls := by
  induction depth generalizing state request with
  | zero => exact calls_prefix_renderWith (fun _ h ↦ absurd h (by simp)) state request
  | succ depth ih =>
    apply calls_prefix_renderWith
    intro child hchild
    obtain rfl : render setting depth = child := Option.some.inj hchild
    exact ih

theorem calls_prefix_childRenderer (setting : Setting) (depth : Nat) :
    ∀ child ∈ childRenderer setting depth, ∀ state request,
      state.calls <+: (child state request).2.calls := by
  intro child hchild
  cases depth with
  | zero => exact absurd hchild (by simp [childRenderer])
  | succ depth =>
    obtain rfl : render setting depth = child := Option.some.inj hchild
    exact calls_prefix_render setting depth

end ComponentMarkup.Component

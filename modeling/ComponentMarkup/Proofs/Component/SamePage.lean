import ComponentMarkup.Proofs.Component.Footprint
import ComponentMarkup.Proofs.FileTree.Walk
import ComponentMarkup.Proofs.Tag.Search

/-!
# Components that read the same

In two trees a component comes to the same page if its file and the files that its segments come
from have the same texts, where a file that cannot be read counts as empty, and if it declares the
same. Its path makes no difference then but for its id, and the id is written only where something
is scoped. A component file without text comes to an empty page.
-/

namespace ComponentMarkup

open Text

namespace Segment

/-- Segments with the same text and attributes; they may come from different files. -/
structure SameText (s t : Segment) : Prop where
  content : s.content = t.content
  attributes : s.attributes = t.attributes
  isScoped : s.isScoped = t.isScoped

theorem SameText.markScoped {s t : Segment} (h : SameText s t) :
    SameText s.markScoped t.markScoped := by
  unfold Segment.markScoped
  rw [h.attributes]
  split
  · exact ⟨h.content, rfl, rfl⟩
  · exact h

variable {a b : FileTree} {dir other : Path}

theorem load_sameText {attributes : Attributes} {inner : Text}
    (h : inner = [] → ∀ src ∈ localSrc? attributes,
      a.textOf (Reference.path a dir src) = b.textOf (Reference.path b other src)) :
    SameText (load a dir attributes inner) (load b other attributes inner) := by
  by_cases hinner : inner = []
  · subst hinner
    cases hsrc : localSrc? attributes with
    | none =>
      rw [load_nil_of_localSrc?_eq_none hsrc, load_nil_of_localSrc?_eq_none hsrc]
      exact ⟨rfl, rfl, rfl⟩
    | some src =>
      rw [load_nil_of_mem_localSrc? hsrc, load_nil_of_mem_localSrc? hsrc]
      exact ⟨h rfl src hsrc, rfl, rfl⟩
  · rw [load_of_ne_nil hinner, load_of_ne_nil hinner]
    exact ⟨rfl, rfl, rfl⟩

/-- A segment has the same text where the file that it comes from has. -/
theorem extract_sameText {source : Text} {kind : SegmentKind}
    (h : ∀ src ∈ localSource? source kind,
      a.textOf (Reference.path a dir src) = b.textOf (Reference.path b other src)) :
    SameText (extract a dir source kind) (extract b other source kind) := by
  unfold localSource? at h
  unfold extract
  cases hoccurrences : Tag.occurrences .ignored kind.tagName source with
  | nil => exact ⟨rfl, rfl, rfl⟩
  | cons occurrence rest =>
    simp only [hoccurrences] at h ⊢
    have hload : SameText (load a dir (Attributes.parse occurrence.attributes) occurrence.innerText)
        (load b other (Attributes.parse occurrence.attributes) occurrence.innerText) := by
      apply load_sameText
      intro hinner src hsrc
      rw [localSrc?] at hsrc
      exact h src (by simpa [hinner] using hsrc)
    split
    · exact hload.markScoped
    · exact hload

end Segment

theorem Segments.localSource?_mem {source src : Text} {kind : SegmentKind}
    (h : src ∈ Segment.localSource? source kind) : src ∈ localSources source :=
  List.mem_filterMap.2 ⟨kind, by cases kind <;> decide, h⟩

/-- Where nothing is registered, a component declares what its sidecar does. A sidecar that cannot be
read declares nothing, like one without text. -/
theorem Host.IsBare.definition?_eq {host : Host} (h : host.IsBare) (tree : FileTree)
    (component : Path) :
    host.definition? tree component =
      if Path.same (host.sidecar component) component then none
      else Definition.read? (tree.textOf (host.sidecar component)) := by
  have hregistered : host.registered? tree component = none := by
    simp [registered?, show host.registered = [] from h]
  have hdefinition : host.definition? tree component = host.sidecarDefinition? tree component := by
    rw [definition?, hregistered]
    cases host.sidecarDefinition? tree component <;> rfl
  have hempty : Definition.read? [] = none := Option.isNone_iff_eq_none.1 (by decide +kernel)
  rw [hdefinition, sidecarDefinition?, FileTree.textOf]
  split
  · rfl
  · cases tree.read (host.sidecar component) with
    | ok text => rfl
    | error error => exact hempty.symm

/-! ## The id is written where something is scoped -/

section Ids

variable {id other : Text} {isScoped : Bool} (h : isScoped = true → id = other)

include h

theorem Template.render_of_id (model : Model) (attributes : Attributes) (content : Text) :
    Template.render model ⟨attributes, content, id, isScoped⟩ =
      Template.render model ⟨attributes, content, other, isScoped⟩ := by
  cases isScoped with
  | false => rfl
  | true => rw [h rfl]

theorem Style.Renderer.render_of_id (renderer : Style.Renderer) (attributes : Attributes)
    (content : Text) :
    renderer.render ⟨attributes, content, id, isScoped⟩ =
      renderer.render ⟨attributes, content, other, isScoped⟩ := by
  cases isScoped with
  | false => rfl
  | true => rw [h rfl]

end Ids

namespace Component

section Ids

variable {id other : Text} {s t : Segment} (hsame : Segment.SameText s t)

include hsame

theorem scriptText_of_sameText {a b : Setting} (hoptions : a.options = b.options) :
    scriptText a id s = scriptText b other t := by
  unfold scriptText
  rw [hoptions, hsame.content, hsame.attributes]
  rfl

theorem styleText_of_sameText {a b : Setting} (hoptions : a.options = b.options) {isScoped : Bool}
    (h : isScoped = true → id = other) (model : Model) :
    styleText a id isScoped model s = styleText b other isScoped model t := by
  unfold styleText Setting.styleRenderer
  rw [hoptions, hsame.content, hsame.attributes]
  have hfilled (content : Text) : Template.render model ⟨[], content, id, false⟩ =
      Template.render model ⟨[], content, other, false⟩ := rfl
  simp only [Style.Renderer.render_of_id h, hfilled]

end Ids

/-- Drafts that differ in their paths and in the files that they depend on only. -/
structure Draft.SamePage (d e : Draft) : Prop where
  invocation : d.invocation = e.invocation
  data : d.data = e.data
  components : d.components = e.components
  html : d.html = e.html
  script : d.script = e.script
  style : d.style = e.style

namespace Draft.SamePage

variable {d e : Draft} (h : Draft.SamePage d e)

include h

theorem visits_eq : d.visits = e.visits := by
  rw [Draft.visits, Draft.visits, h.components, h.html]

theorem output_eq {a b : Setting} (hoptions : a.options = b.options) (outputs : Dict Text) :
    d.output a outputs = e.output b outputs := by
  rw [Draft.output, Draft.output, h.html, h.script, h.style, hoptions]

end Draft.SamePage

/-- Something in a component file is scoped: its style, all styles, or all templates. -/
def isScopedBy (options : Options) (style : Segment) : Bool :=
  (style.isScoped || options.isScoped) || options.isTemplateScoped

/-- Component files with the same text come to the same page where their segments have the same
texts and they declare the same. -/
theorem draft_samePage {a b : FileTree} {options : Options} {host : Host} {p q : Path}
    {source : Text}
    (hsegments : ∀ kind, Segment.SameText (Segment.extract a (Path.parent p) source kind)
      (Segment.extract b (Path.parent q) source kind))
    (hdefinition : host.definition? a p = host.definition? b q)
    (hid : isScopedBy options (Segment.extract a (Path.parent p) source .style) = true →
      Path.componentId p = Path.componentId q)
    (data : Data) (invocation : Attributes) :
    Draft.SamePage (draft ⟨a, options⟩ host p data invocation source)
      (draft ⟨b, options⟩ host q data invocation source) := by
  let style := Segment.extract a (Path.parent p) source .style
  have hscoped : (Segment.extract b (Path.parent q) source .style).isScoped = style.isScoped :=
    (hsegments .style).isScoped.symm
  have hmodel : (host.model b q data).1 = (host.model a p data).1 := by
    rw [Host.model, Host.model, hdefinition]
  have hstyleId : (style.isScoped || options.isScoped) = true →
      Path.componentId p = Path.componentId q := fun h ↦ hid (by simp [isScopedBy, style, h])
  have hfilled : Template.render (host.model a p data).1
        ⟨(Segment.extract a (Path.parent p) source .template).attributes,
          (Segment.extract a (Path.parent p) source .template).content, Path.componentId p,
          isScopedBy options style⟩ =
      Template.render (host.model a p data).1
        ⟨(Segment.extract b (Path.parent q) source .template).attributes,
          (Segment.extract b (Path.parent q) source .template).content, Path.componentId q,
          isScopedBy options style⟩ := by
    rw [(hsegments .template).attributes, (hsegments .template).content]
    exact Template.render_of_id hid _ _ _
  have hstyle (model : Model) :
      styleText ⟨a, options⟩ (Path.componentId p) (style.isScoped || options.isScoped) model style =
        styleText ⟨b, options⟩ (Path.componentId q) (style.isScoped || options.isScoped) model
          (Segment.extract b (Path.parent q) source .style) :=
    styleText_of_sameText (hsegments .style) rfl hstyleId model
  have hscript : scriptText ⟨a, options⟩ (Path.componentId p)
        (Segment.extract a (Path.parent p) source .script) =
      scriptText ⟨b, options⟩ (Path.componentId q)
        (Segment.extract b (Path.parent q) source .script) :=
    scriptText_of_sameText (hsegments .script) rfl
  simp only [isScopedBy, style] at hfilled hstyle
  constructor <;>
    simp only [draft, Segments.extract, hscoped, hmodel, style, hfilled, hstyle, hscript]

/-! ## Component files without text -/

/-- A draft that comes to nothing. -/
structure Draft.IsEmpty (draft : Draft) : Prop where
  html : draft.html = []
  script : draft.script = []
  style : draft.style = []

theorem occurrences_empty (name : Text) : Tag.occurrences .ignored name [] = [] := by
  by_cases hname : name = []
  · rw [hname]
    rfl
  · exact Tag.occurrences_nil hname

theorem Draft.IsEmpty.visits_eq {draft : Draft} (h : draft.IsEmpty) : draft.visits = [] := by
  have hall : allVisits draft.components [] = [] := by simp [allVisits, occurrences_empty]
  rw [Draft.visits, Component.visits, h.html, hall]
  rfl

theorem Draft.IsEmpty.output_eq {draft : Draft} (h : draft.IsEmpty) (setting : Setting) :
    draft.output setting [] = [] := by
  rw [Draft.output, h.html, h.script, h.style]
  split <;> rfl

theorem draft_isEmpty {setting : Setting} (hscoped : setting.options.isScoped = false)
    (htemplate : setting.options.isTemplateScoped = false) (host : Host) (path : Path) (data : Data)
    (invocation : Attributes) : (draft setting host path data invocation []).IsEmpty := by
  have hsegments : Segments.extract setting.tree (Path.parent path) [] = ⟨.empty, .empty, .empty⟩ := by
    simp only [Segments.extract, Segment.extract, occurrences_empty]
  have hfill (model : Model) : (Template.fill model []).1 = [] := by
    rw [Template.fill, Template.parts]
    rfl
  have hstyle (renderer : Style.Renderer) (id : Text) : renderer.render ⟨[], [], id, false⟩ = [] := by
    obtain ⟨output, basePath⟩ := renderer
    cases output <;> rfl
  constructor
  · simp only [draft, hsegments, hscoped, htemplate, Segment.empty, Bool.or_false, Template.render,
      hfill, Bool.false_eq_true, if_false]
  · simp only [draft, hsegments, scriptText, Segment.empty]
    split <;> rfl
  · simp only [draft, hsegments, hscoped, styleText, Segment.empty, Bool.or_false]
    split
    · exact hstyle _ _
    · rfl

end Component

end ComponentMarkup

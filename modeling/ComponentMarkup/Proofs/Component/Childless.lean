import ComponentMarkup.Proofs.Component.Given
import ComponentMarkup.Proofs.Site.ForestPage
import ComponentMarkup.Proofs.Tag.Alone
import ComponentMarkup.Proofs.Template.Meaning

/-!
# Components without children

A component that declares no children and has a template only comes to its template as it is filled
from its data. The least such template is a binding of one name: it shows the value of the name. A
component that declares one childless child asks for this child only, once for every tag that has a
text of its own. If its page is one tag of the child, it comes to the child.
-/

namespace ComponentMarkup

open Tag Text

/-! ## Templates of one name -/

namespace Template

/-- The binding of one name. -/
def Surface.nameBinding (isEscaped : Bool) (name : Surface.Name)
    (hname : name.text ∉ ["true".toList, "false".toList, "null".toList]) : Surface.Binding where
  isEscaped
  before := Surface.space
  expression := ⟨.atom (.path ⟨name, [], hname⟩), []⟩
  after := Surface.space

/-- The template that shows one name and nothing else. -/
def showing (isEscaped : Bool) (name : Text) : Text :=
  if isEscaped then openDouble ++ ' ' :: name ++ ' ' :: closeDouble
  else openTriple ++ ' ' :: name ++ ' ' :: closeTriple

variable {name : Surface.Name}
  (hname : name.text ∉ ["true".toList, "false".toList, "null".toList])

theorem Surface.text_nameBinding (isEscaped : Bool) :
    (Surface.nameBinding isEscaped name hname).text = showing isEscaped name.text := by
  have hpath : joinWith ['.'] [name.text] = name.text := by simp [joinWith, List.intercalate]
  cases isEscaped <;>
    simp [Surface.nameBinding, Surface.Binding.text, Surface.Binding.opening,
      Surface.Binding.closing, Surface.space, Surface.Expression.text, Surface.Head.text,
      Surface.Atom.text, Surface.Path.text, Surface.Path.names, hpath, showing]

include hname in
/-- A binding of one name shows the value of the name, whatever follows it. -/
theorem fill_showing_append (isEscaped : Bool) (model : Model) (t : Text) :
    (fill model (showing isEscaped name.text ++ t)).1 =
      (let shown := ((Dict.find? model.data name.text).getD .null).display
        if isEscaped then escapeHtml shown else shown) ++ (fill model t).1 := by
  have hfill := (Surface.nameBinding isEscaped name hname).fill_text model model.data
  have hparts := parts_of_binding? ((Surface.nameBinding isEscaped name hname).binding?_text t)
  rw [Surface.text_nameBinding] at hparts
  have hvalue : (Surface.nameBinding isEscaped name hname).expression.value model model.data =
      ((Dict.find? model.data name.text).getD .null, model.data) := by
    show ((((Dict.find? model.data name.text).bind some).getD .null, model.data) :
      Json.Value × Data) = _
    rw [Option.bind_fun_some]
  have hself : model.withData model.data = model := rfl
  rw [hvalue, hself] at hfill
  rw [fill, hparts, fillParts]
  simp only [hfill]
  rfl

include hname in
theorem fill_showing (isEscaped : Bool) (model : Model) :
    (fill model (showing isEscaped name.text)).1 =
      let shown := ((Dict.find? model.data name.text).getD .null).display
      if isEscaped then escapeHtml shown else shown := by
  have hfill := fill_showing_append hname isEscaped model []
  have hnil : fill model [] = ([], model) := by simp [fill, parts, fillParts]
  rwa [List.append_nil, hnil, List.append_nil] at hfill

end Template

/-! ## Childless components -/

namespace Component

/-- A component with this template that declares no components. -/
structure IsChildless (tree : FileTree) (path : Path) (content : Text) : Prop where
  template : HoldsTemplate tree path content
  declared : Host.default.declared tree path = []

instance (tree : FileTree) (path : Path) (content : Text) :
    Decidable (IsChildless tree path content) :=
  decidable_of_iff (HoldsTemplate tree path content ∧ Host.default.declared tree path = [])
    ⟨fun ⟨htemplate, hdeclared⟩ ↦ ⟨htemplate, hdeclared⟩,
      fun h ↦ ⟨h.template, h.declared⟩⟩

namespace IsChildless

variable {tree : FileTree} {maxDepth : Nat} {request : Request} {path : Path} {content : Text}
  (h : IsChildless tree path content)
  (hpath : request.path? ⟨tree, defaultUpTo maxDepth⟩ = some path)

include h hpath

theorem exists_draft :
    ∃ draft, draft? ⟨tree, defaultUpTo maxDepth⟩ .default request = some draft ∧
      draft.visits = [] ∧ draft.script = [] ∧ draft.style = [] ∧
      draft.html = (Template.fill (Host.default.model tree path request.data).1 content).1 := by
  obtain ⟨draft, hdraft, _, hcomponents, hhtml, hscript, hstyle⟩ :=
    Component.exists_draft h.template hpath
  refine ⟨draft, hdraft, ?_, hscript, hstyle, hhtml⟩
  rw [Draft.visits, hcomponents, h.declared]
  rfl

/-- A childless component comes to its template, filled from its data. -/
theorem output_eq (depth : Nat) :
    (outcome ⟨tree, defaultUpTo maxDepth⟩ .default depth request).output =
      trim (Template.fill (Host.default.model tree path request.data).1 content).1 := by
  obtain ⟨draft, hdraft, hvisits, hscript, hstyle, hhtml⟩ := h.exists_draft hpath
  rw [output_of_template hdraft hscript hstyle, hvisits, hhtml]
  rfl

theorem childRequests_eq : childRequests ⟨tree, defaultUpTo maxDepth⟩ .default request = [] := by
  obtain ⟨draft, hdraft, hvisits, _⟩ := h.exists_draft hpath
  rw [childRequests, hdraft, Option.map_some, Option.getD_some, Draft.requests, hvisits]
  rfl

end IsChildless

/-! ## A component with one child -/

/-- A component that declares one child, which has this template and no children of its own. -/
structure HasOnlyChild (tree : FileTree) (path : Path) (tag : Text) (file : Path)
    (content : Text) : Prop where
  declared : ∃ reference, Host.default.declared tree path = [(tag, reference)] ∧
    resolve? tree Options.default.extension (Path.parent path) reference = some file
  childless : IsChildless tree file content

namespace HasOnlyChild

variable {tree : FileTree} {maxDepth : Nat} {path file : Path} {tag content : Text} {draft : Draft}
  (h : HasOnlyChild tree path tag file content)
  (hpath : draft.path = path) (hcomponents : draft.components = Host.default.declared tree path)

include h hpath hcomponents

/-- Every tag that is visited is one of the child. -/
theorem of_mem_visits {visit : Visit} (hvisit : visit ∈ draft.visits) :
    visit.tag ∈ occurrences .ignored tag draft.html ∧
      resolve? tree Options.default.extension draft.page.dir visit.file = some file := by
  obtain ⟨reference, hdeclared, hresolve⟩ := h.declared
  rw [Draft.visits, hcomponents, hdeclared] at hvisit
  obtain ⟨component, hcomponent, htag, hfile⟩ := mem_allVisits.1 (mem_firstVisits hvisit).1
  obtain rfl := List.mem_singleton.1 hcomponent
  refine ⟨htag, ?_⟩
  rw [hfile, Draft.page, hpath]
  exact hresolve

/-- Every tag of the child is visited, or one that is the same. -/
theorem exists_visit {occurrence : Occurrence}
    (ho : occurrence ∈ occurrences .ignored tag draft.html) :
    ∃ visit ∈ draft.visits, visit.tag = occurrence := by
  obtain ⟨reference, hdeclared, _⟩ := h.declared
  have hmem : (⟨reference, occurrence⟩ : Visit) ∈ allVisits draft.components draft.html := by
    rw [hcomponents, hdeclared]
    exact mem_allVisits.2 ⟨_, List.mem_singleton_self _, ho, rfl⟩
  obtain ⟨visit, hvisit, htext⟩ := List.mem_map.1 (text_mem_firstVisits hmem List.not_mem_nil)
  refine ⟨visit, hvisit, ?_⟩
  exact eq_of_mem_occurrences_of_text_eq (h.of_mem_visits hpath hcomponents hvisit).1 ho htext

omit hpath hcomponents in
theorem path?_childRequest (host : Host) (page : Page) (occurrence : Occurrence) :
    (childRequest ⟨tree, defaultUpTo maxDepth⟩ host page occurrence file).path?
      ⟨tree, defaultUpTo maxDepth⟩ = some file := by
  obtain ⟨_, _, hresolve⟩ := h.declared
  exact resolve?_self (isCanonical_of_resolve? hresolve) (isFile_of_resolve? hresolve) page.dir

/-- All that is asked for are childless components. -/
theorem path?_of_mem_requests {child : Request}
    (hchild : child ∈ draft.requests ⟨tree, defaultUpTo maxDepth⟩ .default) :
    child.path? ⟨tree, defaultUpTo maxDepth⟩ = some file := by
  rw [Draft.requests, List.mem_filterMap] at hchild
  obtain ⟨visit, hvisit, hchild⟩ := hchild
  have hresolve : resolve? tree (defaultUpTo maxDepth).extension draft.page.dir visit.file =
      some file := (h.of_mem_visits hpath hcomponents hvisit).2
  rw [hresolve, Option.map_some, Option.some.injEq] at hchild
  rw [← hchild]
  exact h.path?_childRequest .default draft.page visit.tag

end HasOnlyChild

/-! ## A page that is one tag -/

/-- A component whose page, filled from these data, is one tag of its only child. -/
structure IsOneTag (tree : FileTree) (path file : Path) (content shown : Text) (data : Data)
    (occurrence : Occurrence) : Prop where
  template : HoldsTemplate tree path content
  child : HasOnlyChild tree path occurrence.name file shown
  fill_eq : (Template.fill (Host.default.model tree path data).1 content).1 = occurrence.text
  occurrences_eq : occurrences .ignored occurrence.name occurrence.text = [occurrence]

namespace IsOneTag

variable {tree : FileTree} {maxDepth : Nat} {path file : Path} {content shown : Text}
  {request : Request} {occurrence : Occurrence}
  (h : IsOneTag tree path file content shown request.data occurrence)
  (hpath : request.path? ⟨tree, defaultUpTo maxDepth⟩ = some path)

include h hpath

/-- The tag is all that is visited. -/
theorem exists_draft :
    ∃ draft, draft? ⟨tree, defaultUpTo maxDepth⟩ .default request = some draft ∧
      draft.page = request.page .default tree path ∧ draft.html = occurrence.text ∧
      draft.script = [] ∧ draft.style = [] ∧
      ∃ reference, draft.visits = [⟨reference, occurrence⟩] ∧
        resolve? tree (defaultUpTo maxDepth).extension draft.page.dir reference = some file := by
  obtain ⟨draft, hdraft, hself, hcomponents, hhtml, hscript, hstyle⟩ :=
    Component.exists_draft h.template hpath
  obtain ⟨reference, hdeclared, hresolve⟩ := h.child.declared
  have hpage := page_of_draft? Host.isBare_default hdraft
  rw [hself] at hpage
  rw [h.fill_eq] at hhtml
  refine ⟨draft, hdraft, hpage, hhtml, hscript, hstyle, reference, ?_, ?_⟩
  · rw [Draft.visits, hcomponents, hdeclared, hhtml, visits, allVisits, List.flatMap_singleton,
      h.occurrences_eq]
    rfl
  · rw [hpage]
    exact hresolve

theorem childRequests_eq :
    childRequests ⟨tree, defaultUpTo maxDepth⟩ .default request =
      [childRequest ⟨tree, defaultUpTo maxDepth⟩ .default (request.page .default tree path) occurrence
        file] := by
  obtain ⟨draft, hdraft, hpage, _, _, _, reference, hvisits, hresolve⟩ := h.exists_draft hpath
  rw [childRequests, hdraft, Option.map_some, Option.getD_some, Draft.requests, hvisits]
  simp only [List.filterMap_cons, List.filterMap_nil, hresolve, Option.map_some]
  rw [hpage]

/-- The page comes to the child. -/
theorem output_eq (depth : Nat) :
    (outcome ⟨tree, defaultUpTo maxDepth⟩ .default (depth + 1) request).output =
      trim (Template.fill (Host.default.model tree file (childRequest
        ⟨tree, defaultUpTo maxDepth⟩ .default (request.page .default tree path) occurrence file).data).1
        shown).1 := by
  obtain ⟨draft, hdraft, hpage, hhtml, hscript, hstyle, reference, hvisits, hresolve⟩ :=
    h.exists_draft hpath
  have hfile : (childRequest ⟨tree, defaultUpTo maxDepth⟩ .default draft.page occurrence file).path?
      ⟨tree, defaultUpTo maxDepth⟩ = some file :=
    h.child.path?_childRequest .default draft.page occurrence
  have hchild := h.child.childless.output_eq hfile depth
  have hnonempty : occurrence.text ≠ [] := List.cons_ne_nil _ _
  rw [output_of_template hdraft hscript hstyle, hvisits, hhtml]
  simp only [List.map_cons, List.map_nil, outcomeTag, hresolve, childOutcome, hchild]
  rw [substitute_self hnonempty, trim_trim, hpage]

/-- The page and its child are two components, so what either of them is asked for comes out the
same. -/
theorem pathsAgree (depth : Nat) :
    PathsAgree ⟨tree, defaultUpTo maxDepth⟩ .default
      (asked ⟨tree, defaultUpTo maxDepth⟩ .default (depth + 1) request) := by
  let child := childRequest ⟨tree, defaultUpTo maxDepth⟩ .default (request.page .default tree path)
    occurrence file
  have hfile : child.path? ⟨tree, defaultUpTo maxDepth⟩ = some file :=
    h.child.path?_childRequest .default _ occurrence
  have hasked : asked ⟨tree, defaultUpTo maxDepth⟩ .default (depth + 1) request =
      [⟨depth + 1, request⟩, ⟨depth, child⟩] := by
    rw [asked, h.childRequests_eq hpath, List.flatMap_singleton,
      asked_of_childRequests_eq_nil (h.child.childless.childRequests_eq hfile)]
  have hne : path ≠ file := by
    rintro rfl
    obtain ⟨reference, hdeclared, _⟩ := h.child.declared
    rw [h.child.childless.declared] at hdeclared
    exact List.cons_ne_nil _ _ hdeclared.symm
  rw [hasked]
  intro a ha b hb hsame
  simp only [List.mem_cons, List.not_mem_nil, or_false] at ha hb
  rcases ha with rfl | rfl <;> rcases hb with rfl | rfl
  · rfl
  · rw [hpath, hfile] at hsame
    exact absurd (Option.some.inj hsame) hne
  · rw [hpath, hfile] at hsame
    exact absurd (Option.some.inj hsame).symm hne
  · rfl

end IsOneTag

end Component

end ComponentMarkup

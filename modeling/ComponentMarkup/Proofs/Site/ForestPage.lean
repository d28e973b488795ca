import ComponentMarkup.Proofs.Forest.Expanded
import ComponentMarkup.Proofs.Site.Policy
import ComponentMarkup.Proofs.Template.Children

/-!
# Pages that are forests

A page whose template is a forest of components, where every component shows its children between
two texts, is rendered to the expanded forest: components that are passed as children of other
components are expanded in turn, however deep they are nested and in whatever order the page
declares them.
-/

namespace ComponentMarkup

open Component Tag Text

/-- The template of a component that shows its children between two texts. -/
def Frame.template (frame : Frame) : Text :=
  frame.before ++ Template.childrenTag ++ frame.after

namespace Component

/-- The file at a path holds a template with this content, and no script and no style. -/
def HoldsTemplate (tree : FileTree) (path : Path) (content : Text) : Prop :=
  ∃ source, tree.read path = .ok source ∧
    (Segments.extract tree (Path.parent path) source).template.content = content ∧
    (Segments.extract tree (Path.parent path) source).script = .empty ∧
    (Segments.extract tree (Path.parent path) source).style = .empty

instance (tree : FileTree) (path : Path) (content : Text) :
    Decidable (HoldsTemplate tree path content) :=
  decidable_of_iff (∃ source ∈ (tree.read path).toOption,
      (Segments.extract tree (Path.parent path) source).template.content = content ∧
      (Segments.extract tree (Path.parent path) source).script = .empty ∧
      (Segments.extract tree (Path.parent path) source).style = .empty) <| by
    unfold HoldsTemplate
    cases tree.read path <;> simp [Except.toOption]

/-- The options that a site has by default, with another depth. -/
def defaultUpTo (maxDepth : Nat) : Options := { Options.default with maxDepth }

section Drafts

variable {tree : FileTree} {maxDepth : Nat} {request : Request} {path : Path} {content : Text}

theorem scriptText_empty (id : Text) : scriptText ⟨tree, defaultUpTo maxDepth⟩ id .empty = [] :=
  rfl

theorem styleText_empty (id : Text) (model : Model) :
    styleText ⟨tree, defaultUpTo maxDepth⟩ id false model .empty = [] :=
  rfl

/-- The draft of a component that has a template only. -/
theorem exists_draft (h : HoldsTemplate tree path content)
    (hpath : request.path? ⟨tree, defaultUpTo maxDepth⟩ = some path) :
    ∃ draft, draft? ⟨tree, defaultUpTo maxDepth⟩ .default request = some draft ∧
      draft.path = path ∧ draft.components = Host.default.declared tree path ∧
      draft.html = (Template.fill (Host.default.model tree path request.data).1 content).1 ∧
      draft.script = [] ∧ draft.style = [] := by
  obtain ⟨source, hread, hcontent, hscript, hstyle⟩ := h
  have hplain : (Host.default.model tree path request.data).1.IsPlain :=
    ((Host.isBare_ofExtension _).isPlain_definition? tree path).isPlain_model request.data
  refine ⟨_, draft?_of_read .default hpath hread, rfl, draft_components _ _ _ _ _ _, ?_, ?_, ?_⟩
  · simp only [draft, hstyle, hcontent]
    rfl
  · simp only [draft, hscript]
    exact scriptText_empty _
  · simp only [draft, hstyle]
    exact styleText_empty _ _

/-- A component that has a template only comes to its page with its children put in. -/
theorem output_of_template {draft : Draft}
    (h : draft? ⟨tree, defaultUpTo maxDepth⟩ .default request = some draft)
    (hscript : draft.script = []) (hstyle : draft.style = []) (depth : Nat) :
    (outcome ⟨tree, defaultUpTo maxDepth⟩ .default depth request).output =
      trim (substitute draft.html (draft.visits.map fun visit ↦ (visit.tag.text,
        (outcomeTag ⟨tree, defaultUpTo maxDepth⟩ .default
          (childOutcome ⟨tree, defaultUpTo maxDepth⟩ .default depth) draft.page visit).output))) := by
  rw [output_of_draft? rfl h, hscript, hstyle, List.append_nil, List.append_nil]

end Drafts

/-! ## Components around their children -/

section Framed

variable {tree : FileTree} {maxDepth : Nat} {request : Request} {path : Path} {frame : Frame}

theorem trim_fill (h : frame.IsProper) (inner : Text) : trim (frame.fill inner) = frame.fill inner := by
  obtain ⟨c, hc, hbegins⟩ := h.begins
  obtain ⟨d, hd, hends⟩ := h.ends
  obtain ⟨before, hbefore⟩ := List.head?_eq_some_iff.1 hc
  obtain ⟨after, hafter⟩ := List.getLast?_eq_some_iff.1 hd
  have hfirst : (frame.fill inner).dropWhile isBlank = frame.fill inner := by
    simp [Frame.fill, hbefore, hbegins]
  have hlast : (frame.fill inner).reverse.dropWhile isBlank = (frame.fill inner).reverse := by
    simp [Frame.fill, hafter, hends]
  rw [trim, trimBy, hfirst, hlast, List.reverse_reverse]

theorem not_mem_brace (h : frame.IsProper) : '\x7b' ∉ frame.before ∧ '\x7b' ∉ frame.after := by
  constructor
  · exact fun hmem ↦ (isTextChar_iff.1 (h.text _ (List.mem_append_left _ hmem)).1).2.2 rfl
  · exact fun hmem ↦ (isTextChar_iff.1 (h.text _ (List.mem_append_right _ hmem)).1).2.2 rfl

/-- A component that shows its children between two texts and declares no components. -/
structure IsFramed (tree : FileTree) (path : Path) (frame : Frame) : Prop where
  template : HoldsTemplate tree path frame.template
  declared : Host.default.declared tree path = []
  proper : frame.IsProper

instance (tree : FileTree) (path : Path) (frame : Frame) : Decidable (IsFramed tree path frame) :=
  decidable_of_iff (HoldsTemplate tree path frame.template ∧
      Host.default.declared tree path = [] ∧ frame.IsProper)
    ⟨fun ⟨htemplate, hdeclared, hproper⟩ ↦ ⟨htemplate, hdeclared, hproper⟩,
      fun h ↦ ⟨h.template, h.declared, h.proper⟩⟩

/-- The model of a component has what it is given. -/
theorem find?_model (path : Path) {data : Data} (hsorted : data.IsSorted) {key : Text}
    {value : Json.Value} (h : Dict.find? data key = some value) :
    Dict.find? (Host.default.model tree path data).1.data key = some value := by
  have hplain := (Host.isBare_ofExtension "json".toList).isPlain_definition? tree path
  have hdata : (Host.default.model tree path data).1.data = _ := hplain.model_data data
  rw [hdata, Json.Object.find?_overlay hsorted, h]
  rfl

/-- The draft of such a component is its frame around the children, and nothing is visited. -/
theorem exists_draft_of_isFramed (h : IsFramed tree path frame)
    (hpath : request.path? ⟨tree, defaultUpTo maxDepth⟩ = some path) (hsorted : request.data.IsSorted)
    {inner : Text} (hinner : Dict.find? request.data childrenName = some (.string inner)) :
    ∃ draft, draft? ⟨tree, defaultUpTo maxDepth⟩ .default request = some draft ∧
      draft.visits = [] ∧ draft.html = frame.fill inner ∧ draft.script = [] ∧ draft.style = [] := by
  obtain ⟨draft, hdraft, _, hcomponents, hhtml, hscript, hstyle⟩ := exists_draft h.template hpath
  have hplain : (Host.default.model tree path request.data).1.IsPlain :=
    ((Host.isBare_ofExtension _).isPlain_definition? tree path).isPlain_model request.data
  obtain ⟨hbefore, hafter⟩ := not_mem_brace h.proper
  refine ⟨draft, hdraft, ?_, ?_, hscript, hstyle⟩
  · rw [Draft.visits, hcomponents, h.declared]
    rfl
  · rw [hhtml, Frame.template,
      Template.fill_around_children hplain (find?_model path hsorted hinner) hbefore hafter]
    rfl

theorem output_of_isFramed (h : IsFramed tree path frame)
    (hpath : request.path? ⟨tree, defaultUpTo maxDepth⟩ = some path) (hsorted : request.data.IsSorted)
    {inner : Text} (hinner : Dict.find? request.data childrenName = some (.string inner))
    (depth : Nat) :
    (outcome ⟨tree, defaultUpTo maxDepth⟩ .default depth request).output = frame.fill inner := by
  obtain ⟨draft, hdraft, hvisits, hhtml, hscript, hstyle⟩ :=
    exists_draft_of_isFramed h hpath hsorted hinner
  rw [output_of_template hdraft hscript hstyle, hvisits, hhtml]
  exact trim_fill h.proper inner

theorem childRequests_of_isFramed (h : IsFramed tree path frame)
    (hpath : request.path? ⟨tree, defaultUpTo maxDepth⟩ = some path) (hsorted : request.data.IsSorted)
    {inner : Text} (hinner : Dict.find? request.data childrenName = some (.string inner)) :
    childRequests ⟨tree, defaultUpTo maxDepth⟩ .default request = [] := by
  obtain ⟨draft, hdraft, hvisits, _⟩ := exists_draft_of_isFramed h hpath hsorted hinner
  rw [childRequests, hdraft, Option.map_some, Option.getD_some, Draft.requests, hvisits]
  rfl

end Framed

/-! ## The page -/

/-- A page whose template is a forest of components that show their children between two texts; its
tags may still differ in case only. -/
structure IsForestPage (tree : FileTree) (path : Path) (frames : Text → Frame) (forest : Forest) :
    Prop where
  template : HoldsTemplate tree path forest.write
  proper : forest.IsProper
  tags : ∀ component ∈ Host.default.declared tree path, IsName component.1
  names : ∀ name ∈ forest.names, name ∈ Dict.keys (Host.default.declared tree path)
  framed : ∀ component ∈ Host.default.declared tree path,
    ∃ file ∈ resolve? tree Options.default.extension (Path.parent path) component.2,
      IsFramed tree file (frames component.1)

instance (tree : FileTree) (path : Path) (frames : Text → Frame) (forest : Forest) :
    Decidable (IsForestPage tree path frames forest) :=
  decidable_of_iff (HoldsTemplate tree path forest.write ∧ forest.IsProper ∧
      (∀ component ∈ Host.default.declared tree path, IsName component.1) ∧
      (∀ name ∈ forest.names, name ∈ Dict.keys (Host.default.declared tree path)) ∧
      ∀ component ∈ Host.default.declared tree path,
        ∃ file ∈ resolve? tree Options.default.extension (Path.parent path) component.2,
          IsFramed tree file (frames component.1))
    ⟨fun ⟨htemplate, hproper, htags, hnames, hframed⟩ ↦
        ⟨htemplate, hproper, htags, hnames, hframed⟩,
      fun h ↦ ⟨h.template, h.proper, h.tags, h.names, h.framed⟩⟩

namespace IsForestPage

variable {tree : FileTree} {path : Path} {frames : Text → Frame} {forest : Forest}
  {maxDepth : Nat} {request : Request} (h : IsForestPage tree path frames forest)
  (hdistinct : HasDistinctTags (Host.default.declared tree path))

include h hdistinct in
/-- Tags with the same letters are the same. -/
theorem eq_of_lower {name : Text} (hname : name ∈ forest.names) {component : Text × Text}
    (hcomponent : component ∈ Host.default.declared tree path)
    (hlower : lower name = lower component.1) : name = component.1 := by
  obtain ⟨other, hother, rfl⟩ := List.mem_map.1 (h.names name hname)
  rw [List.inj_on_of_nodup_map hdistinct hother hcomponent hlower]

include h hdistinct in
/-- What is visited are the elements of the forest, each for the component of its name. -/
theorem exists_component {visit : Visit}
    (hvisit : visit ∈ visits (Host.default.declared tree path) forest.write) :
    visit.tag ∈ forest.elements ∧ ∃ component ∈ Host.default.declared tree path,
      visit.file = component.2 ∧ visit.tag.name = component.1 := by
  obtain ⟨component, hcomponent, htag, hfile⟩ := mem_allVisits.1 (mem_firstVisits hvisit).1
  have hfound := Forest.occurrences_write (h.tags component hcomponent) h.proper []
  rw [List.append_nil, occurrences_nil (h.tags component hcomponent).1, List.append_nil] at hfound
  rw [hfound, List.mem_filter, decide_eq_true_eq] at htag
  have hname := h.eq_of_lower hdistinct (Forest.name_mem_of_mem_elements htag.1) hcomponent htag.2
  exact ⟨htag.1, component, hcomponent, hfile, hname⟩

include h in
/-- Every element of the forest is visited. -/
theorem text_mem_visits {o : Occurrence} (ho : o ∈ forest.elements) :
    o.text ∈ (visits (Host.default.declared tree path) forest.write).map fun v ↦ v.tag.text := by
  obtain ⟨component, hcomponent, hname⟩ :=
    List.mem_map.1 (h.names o.name (Forest.name_mem_of_mem_elements ho))
  have hfound := Forest.occurrences_write (h.tags component hcomponent) h.proper []
  rw [List.append_nil, occurrences_nil (h.tags component hcomponent).1, List.append_nil] at hfound
  have hmem : (⟨component.2, o⟩ : Visit) ∈
      allVisits (Host.default.declared tree path) forest.write := by
    refine mem_allVisits.2 ⟨component, hcomponent, ?_, rfl⟩
    rw [hfound, List.mem_filter, decide_eq_true_eq]
    exact ⟨ho, by rw [← hname]⟩
  exact text_mem_firstVisits hmem List.not_mem_nil

include h in
/-- The draft of the page is the forest as it is written. -/
theorem exists_draft (hpath : request.path? ⟨tree, defaultUpTo maxDepth⟩ = some path) :
    ∃ draft, draft? ⟨tree, defaultUpTo maxDepth⟩ .default request = some draft ∧
      draft.path = path ∧ draft.components = Host.default.declared tree path ∧
      draft.html = forest.write ∧ draft.script = [] ∧ draft.style = [] := by
  obtain ⟨draft, hdraft, hself, hcomponents, hhtml, hscript, hstyle⟩ :=
    Component.exists_draft h.template hpath
  refine ⟨draft, hdraft, hself, hcomponents, ?_, hscript, hstyle⟩
  rw [hhtml, Template.fill_of_not_mem _ (Forest.brace_not_mem_write h.proper)]

include h hdistinct in
/-- The child of an element is a component that shows its children between two texts. -/
theorem exists_child (maxDepth : Nat) {draft : Draft} (hself : draft.path = path) {visit : Visit}
    (hvisit : visit ∈ visits (Host.default.declared tree path) forest.write) :
    ∃ file, resolve? tree Options.default.extension draft.page.dir visit.file = some file ∧
      IsFramed tree file (frames visit.tag.name) ∧
      let child := childRequest ⟨tree, defaultUpTo maxDepth⟩ .default draft.page visit.tag file
      child.path? ⟨tree, defaultUpTo maxDepth⟩ = some file ∧ child.data.IsSorted ∧
        Dict.find? child.data childrenName = some (.string visit.tag.innerText) := by
  obtain ⟨_, component, hcomponent, hfile, hname⟩ := h.exists_component hdistinct hvisit
  obtain ⟨file, hresolve, hframed⟩ := h.framed component hcomponent
  have hdir : draft.page.dir = Path.parent path := by rw [Draft.page, hself]
  refine ⟨file, by rw [hdir, hfile, hresolve], by rw [hname]; exact hframed, ?_, ?_, ?_⟩
  · exact resolve?_self (isCanonical_of_resolve? hresolve) (isFile_of_resolve? hresolve)
      draft.page.dir
  · exact isSorted_childData _ _ _ _ _
  · exact find?_childData _ _ _ _ _

include h hdistinct in
/-- The page comes to the expanded forest. -/
theorem output_eq (hpath : request.path? ⟨tree, defaultUpTo maxDepth⟩ = some path) (depth : Nat) :
    (outcome ⟨tree, defaultUpTo maxDepth⟩ .default (depth + 1) request).output =
      trim (forest.expand frames) := by
  obtain ⟨draft, hdraft, hself, hcomponents, hhtml, hscript, hstyle⟩ := h.exists_draft hpath
  have hvisits : draft.visits = visits (Host.default.declared tree path) forest.write := by
    rw [Draft.visits, hcomponents, hhtml]
  have houtput {visit : Visit} (hvisit : visit ∈ draft.visits) :
      (outcomeTag ⟨tree, defaultUpTo maxDepth⟩ .default
        (childOutcome ⟨tree, defaultUpTo maxDepth⟩ .default (depth + 1)) draft.page visit).output =
        Forest.filled frames visit.tag := by
    rw [hvisits] at hvisit
    obtain ⟨file, hresolve, hframed, hchild, hsorted, hinner⟩ :=
      h.exists_child hdistinct maxDepth hself hvisit
    have hresolve' : resolve? tree (defaultUpTo maxDepth).extension draft.page.dir visit.file =
        some file := hresolve
    simp only [outcomeTag, hresolve', childOutcome]
    exact output_of_isFramed hframed hchild hsorted hinner depth
  rw [output_of_template hdraft hscript hstyle, hhtml]
  congr 1
  have hmap : (draft.visits.map fun visit ↦ (visit.tag.text,
      (outcomeTag ⟨tree, defaultUpTo maxDepth⟩ .default
        (childOutcome ⟨tree, defaultUpTo maxDepth⟩ .default (depth + 1)) draft.page visit).output)) =
      draft.visits.map fun visit ↦ (visit.tag.text, Forest.filled frames visit.tag) :=
    List.map_congr_left fun visit hvisit ↦ by rw [houtput hvisit]
  have hkeys : (draft.visits.map fun visit ↦
      (visit.tag.text, Forest.filled frames visit.tag)).map Prod.fst =
      draft.visits.map fun visit ↦ visit.tag.text := by
    rw [List.map_map]
    rfl
  rw [hmap]
  apply Forest.substitute_write h.proper
  · intro name hname
    obtain ⟨component, hcomponent, rfl⟩ := List.mem_map.1 (h.names name hname)
    obtain ⟨_, _, hframed⟩ := h.framed component hcomponent
    exact hframed.proper
  · intro pair hpair
    obtain ⟨visit, hvisit, rfl⟩ := List.mem_map.1 hpair
    rw [hvisits] at hvisit
    exact ⟨visit.tag, (h.exists_component hdistinct hvisit).1, rfl⟩
  · rw [hkeys]
    exact nodup_firstVisits [] _
  · intro o ho
    rw [hkeys, hvisits]
    exact h.text_mem_visits ho

include h hdistinct in
/-- What the page asks for are components that show their children between two texts. -/
theorem exists_file_of_childRequests
    (hpath : request.path? ⟨tree, defaultUpTo maxDepth⟩ = some path) {child : Request}
    (hchild : child ∈ childRequests ⟨tree, defaultUpTo maxDepth⟩ .default request) :
    childRequests ⟨tree, defaultUpTo maxDepth⟩ .default child = [] ∧
      ∃ file frame, child.path? ⟨tree, defaultUpTo maxDepth⟩ = some file ∧
        IsFramed tree file frame := by
  obtain ⟨draft, hdraft, hself, hcomponents, hhtml, _⟩ := h.exists_draft hpath
  rw [childRequests, hdraft, Option.map_some, Option.getD_some, Draft.requests,
    List.mem_filterMap] at hchild
  obtain ⟨visit, hvisit, hchild⟩ := hchild
  rw [Draft.visits, hcomponents, hhtml] at hvisit
  obtain ⟨file, hresolve, hframed, hfile, hsorted, hinner⟩ := h.exists_child hdistinct maxDepth hself hvisit
  have hresolve' : resolve? tree (defaultUpTo maxDepth).extension draft.page.dir visit.file =
      some file := hresolve
  rw [hresolve', Option.map_some, Option.some.injEq] at hchild
  rw [← hchild]
  exact ⟨childRequests_of_isFramed hframed hfile hsorted hinner, file, _, hfile, hframed⟩

include h in
/-- The page is no component that shows its children. -/
theorem not_isFramed (frame : Frame) : ¬IsFramed tree path frame := by
  intro hframed
  obtain ⟨source, hread, hcontent, _⟩ := h.template
  obtain ⟨other, hother, hframe, _⟩ := hframed.template
  rw [hread, Except.ok.injEq] at hother
  rw [← hother, hcontent] at hframe
  apply Forest.brace_not_mem_write h.proper
  rw [hframe, Frame.template]
  exact List.mem_append_left _ (List.mem_append_right _ List.mem_cons_self)

include h hdistinct in
/-- Nothing that the page asks for is asked for at two depths. -/
theorem depthsAgree (hpath : request.path? ⟨tree, defaultUpTo maxDepth⟩ = some path)
    (depth : Nat) :
    DepthsAgree ⟨tree, defaultUpTo maxDepth⟩ .default
      (asked ⟨tree, defaultUpTo maxDepth⟩ .default (depth + 1) request) := by
  have hcases {asking : Asking}
      (hasking : asking ∈ asked ⟨tree, defaultUpTo maxDepth⟩ .default (depth + 1) request) :
      asking = ⟨depth + 1, request⟩ ∨ asking.depth = depth ∧ ∃ file frame,
        asking.request.path? ⟨tree, defaultUpTo maxDepth⟩ = some file ∧
          IsFramed tree file frame := by
    rw [asked, List.mem_cons, List.mem_flatMap] at hasking
    rcases hasking with hself | ⟨child, hchild, hasking⟩
    · exact Or.inl hself
    · obtain ⟨hnil, hframed⟩ := h.exists_file_of_childRequests hdistinct hpath hchild
      rw [asked_of_childRequests_eq_nil hnil, List.mem_singleton] at hasking
      rw [hasking]
      exact Or.inr ⟨rfl, hframed⟩
  -- the page is no component below it, so two depths would be those of two files
  have hpage {asking : Asking} {file : Path} {frame : Frame}
      (hfile : asking.request.path? ⟨tree, defaultUpTo maxDepth⟩ = some file)
      (hframed : IsFramed tree file frame)
      (hsame : asking.request.path? ⟨tree, defaultUpTo maxDepth⟩ =
        request.path? ⟨tree, defaultUpTo maxDepth⟩) : False := by
    rw [hfile, hpath, Option.some.injEq] at hsame
    rw [hsame] at hframed
    exact h.not_isFramed frame hframed
  intro a ha b hb hrepeats hdepth
  rcases hcases ha with rfl | ⟨hda, _, _, hfile, hframed⟩
  · rcases hcases hb with rfl | ⟨_, _, _, hfile, hframed⟩
    · exact absurd rfl hdepth
    · exact absurd hrepeats.1.symm (hpage hfile hframed)
  · rcases hcases hb with rfl | ⟨hdb, _⟩
    · exact absurd hrepeats.1 (hpage hfile hframed)
    · exact absurd (hda.trans hdb.symm) hdepth

end IsForestPage

end Component

namespace Site

/-- A page that is a forest of components, each showing its children between two texts, is rendered
to the forest with every element expanded, in whatever order the components are declared. -/
theorem render_forestPage {tree : FileTree} {root path reference : Path} {frames : Text → Frame}
    {forest : Forest} {maxDepth : Nat} (data : Data) (hdepth : 1 ≤ maxDepth)
    (hpath : resolve? tree Options.default.extension root reference = some path)
    (hpage : IsForestPage tree path frames forest)
    (hdistinct : HasDistinctTags (Host.default.declared tree path))
    (hdigest : DigestsTellApart (inputTexts
      ((new root (defaultUpTo maxDepth) .default).asked tree (.one reference) data))) :
    ((new root (defaultUpTo maxDepth) .default).render tree (.one reference) data).1 =
      trim (forest.expand frames) := by
  obtain ⟨depth, rfl⟩ : ∃ depth, maxDepth = depth + 1 := Nat.exists_eq_add_of_le' hdepth
  have hfile : (⟨root, reference, data, []⟩ : Request).path? ⟨tree, defaultUpTo (depth + 1)⟩ =
      some path := hpath
  have hdepths : DepthsAgree ⟨tree, defaultUpTo (depth + 1)⟩ .default
      ((new root (defaultUpTo (depth + 1)) .default).asked tree (.one reference) data) := by
    rw [asked_one]
    exact hpage.depthsAgree hdistinct hfile depth
  have hbare : Host.default.IsBare := Host.isBare_ofExtension _
  calc
    _ = (new root (defaultUpTo (depth + 1)) .default).outcome tree (.one reference) data :=
      render_new_eq_outcome hbare.isSteady hdigest (repeatsAgree_of_depthsAgree hbare hdepths)
    _ = trim (forest.expand frames) := hpage.output_eq hdistinct hfile depth

/-! ## Cards around badges, and two tags with the same letters -/

/-- A page with this template that declares these components; the first shows its children in square
brackets, the second in round ones. -/
def twoFrames (page components first second : String) : FileTree :=
  let file (name content : String) (tree : FileTree) : FileTree :=
    tree.write ("/rain/".toList ++ name.toList) (.text content.toList) (some 1)
  file "page.rain" ("<template>" ++ page ++ "</template>")
    <| file "page.json" ("\x7b\"components\":" ++ components ++ "\x7d")
    <| file first "<template>[\x7b\x7b\x7b children \x7d\x7d\x7d]</template>"
    <| file second "<template>(\x7b\x7b\x7b children \x7d\x7d\x7d)</template>" .empty

def brackets (first : String) (name : Text) : Frame :=
  if name = first.toList then ⟨['['], [']']⟩ else ⟨['('], [')']⟩

/-- A titled card with a badge in it, and a badge behind it. -/
def cardAndBadge : Forest :=
  .element "card".toList [⟨[' '], "title".toList, "x".toList⟩]
    (.text "new".toList (.element "badge".toList [] .done .done))
    (.text " ".toList (.element "badge".toList [] (.text "old".toList .done) .done))

def cardAndBadgePage : FileTree :=
  twoFrames "<card title=\"x\">new<badge></badge></card> <badge>old</badge>"
    "[\"badge.rain\",\"card.rain\"]" "card.rain" "badge.rain"

theorem render_cardAndBadge :
    resolve? cardAndBadgePage Options.default.extension "/rain".toList "page.rain".toList =
        some "/rain/page.rain".toList ∧
      IsForestPage cardAndBadgePage "/rain/page.rain".toList (brackets "card") cardAndBadge ∧
      HasDistinctTags (Host.default.declared cardAndBadgePage "/rain/page.rain".toList) ∧
      DigestsTellApart (inputTexts ((new "/rain".toList (defaultUpTo 1) .default).asked
        cardAndBadgePage (.one "page.rain".toList) [])) ∧
      ((new "/rain".toList (defaultUpTo 1) .default).render cardAndBadgePage
          (.one "page.rain".toList) []).1 = trim (cardAndBadge.expand (brackets "card")) ∧
      trim (cardAndBadge.expand (brackets "card")) = "[new()] (old)".toList := by
  have hpath : resolve? cardAndBadgePage Options.default.extension "/rain".toList
      "page.rain".toList = some "/rain/page.rain".toList := by
    decide +kernel
  have hpage : IsForestPage cardAndBadgePage "/rain/page.rain".toList (brackets "card")
      cardAndBadge := by
    decide +kernel
  have hdistinct :
      HasDistinctTags (Host.default.declared cardAndBadgePage "/rain/page.rain".toList) := by
    decide +kernel
  have hdigest : DigestsTellApart (inputTexts ((new "/rain".toList (defaultUpTo 1) .default).asked
      cardAndBadgePage (.one "page.rain".toList) [])) := by
    decide +kernel
  exact ⟨hpath, hpage, hdistinct, hdigest,
    render_forestPage [] le_rfl hpath hpage hdistinct hdigest, by decide +kernel⟩

/-- A small and a capital tag: the first one that is declared takes the elements of both. -/
theorem render_sameLetters :
    IsForestPage (twoFrames "<a></a>" "[\"A.rain\",\"a.rain\"]" "a.rain" "A.rain")
        "/rain/page.rain".toList (brackets "a") (.element ['a'] [] .done .done) ∧
      (Dict.keys (Host.default.declared
        (twoFrames "<a></a>" "[\"A.rain\",\"a.rain\"]" "a.rain" "A.rain")
          "/rain/page.rain".toList)).Nodup ∧
      ((new "/rain".toList (defaultUpTo 1) .default).render
          (twoFrames "<a></a>" "[\"A.rain\",\"a.rain\"]" "a.rain" "A.rain")
          (.one "page.rain".toList) []).1 = "()".toList ∧
      trim ((Forest.element ['a'] [] .done .done).expand (brackets "a")) = "[]".toList := by
  decide +kernel

end Site

end ComponentMarkup

import ComponentMarkup.Proofs.Component.Alike
import ComponentMarkup.Proofs.Component.Resolve
import ComponentMarkup.Proofs.Component.Substitution
import ComponentMarkup.Proofs.FileTree.Shape

/-!
# Child components in another order

Two trees with their hosts may show the same components but for the order in which these declare
their children. The tags of a page are then the same, maybe in another order, and each asks for the
same child. So the outputs of the children are the same, and putting them into the page leads to the
same text wherever their texts are apart and those of one length can be swapped.
-/

namespace ComponentMarkup

/-- The definition with other child components. -/
def Definition.withComponents (definition : Definition) (components : Option ComponentMap) :
    Definition :=
  { definition with components }

namespace Component

/-- Two trees with their hosts show the same component, and it declares the same children, maybe in
another order; then their tags have different letters. -/
structure SameButOrder (a b : FileTree) (ha hb : Host) (path : Path) : Prop where
  segments : (a.read path).toOption.map (Segments.extract a (Path.parent path)) =
    (b.read path).toOption.map (Segments.extract b (Path.parent path))
  definition : ∃ components, (hb.definition? b path).getD .empty =
    ((ha.definition? a path).getD .empty).withComponents components
  declared : ha.declared a path = hb.declared b path ∨
    HasDistinctTags (ha.declared a path) ∧ (ha.declared a path).Perm (hb.declared b path)

/-- What replaces the tags of one component in a draft, with children nested `depth` deep. -/
def Draft.replacements (setting : Setting) (host : Host) (depth : Nat) (draft : Draft)
    (component : Text × Text) : List (Text × Text) :=
  (visitsOf draft.html component).map fun visit ↦
    (visit.tag.text,
      (outcomeTag setting host (childOutcome setting host depth) draft.page visit).output)

/-- The children can be put into a draft component by component in any order: the texts of their
tags are apart, and those of one length can be swapped. -/
structure Draft.IsOrderFree (setting : Setting) (host : Host) (depth : Nat) (draft : Draft) :
    Prop where
  apart : HasTextsApart draft.components draft.html
  swap : CanSwap (draft.replacements setting host depth) draft.components draft.html

section Reordered

variable {a b : FileTree} {options : Options} {ha hb : Host} {path : Path}

theorem SameButOrder.props_eq (h : SameButOrder a b ha hb path) :
    hb.props b path = ha.props a path := by
  have hprops (tree : FileTree) (host : Host) :
      host.props tree path = ((host.definition? tree path).getD .empty).props.getD [] := by
    rw [Host.props]
    cases host.definition? tree path <;> rfl
  obtain ⟨components, hdefinition⟩ := h.definition
  rw [hprops, hprops, hdefinition]
  rfl

theorem SameButOrder.model_eq (h : SameButOrder a b ha hb path) (data : Data) :
    (hb.model b path data).1 = (ha.model a path data).1.withComponents (hb.declared b path) := by
  obtain ⟨components, hdefinition⟩ := h.definition
  have hdeclared : hb.declared b path = components.getD [] := by
    rw [Host.declared, hdefinition]
    rfl
  rw [Host.model, hdefinition, hdeclared]
  rfl

/-- Drafts differ in the order of their children, and in the files that they depend on. -/
theorem SameButOrder.draft_eq (h : SameButOrder a b ha hb path) (data : Data)
    (invocation : Attributes) {source other : Text}
    (hsegments : Segments.extract a (Path.parent path) source =
      Segments.extract b (Path.parent path) other) :
    ∃ own, draft ⟨b, options⟩ hb path data invocation other =
      { draft ⟨a, options⟩ ha path data invocation source with
        components := hb.declared b path, own } := by
  refine ⟨(draft ⟨b, options⟩ hb path data invocation other).own, ?_⟩
  have hstyle (id : Text) (isScoped : Bool) (model : Model) (segment : Segment) :
      styleText ⟨b, options⟩ id isScoped (model.withComponents (hb.declared b path)) segment =
        styleText ⟨a, options⟩ id isScoped model segment := by
    unfold styleText
    rw [Template.render_withComponents]
    rfl
  simp only [draft, ← hsegments, h.model_eq, Template.render_withComponents, Prod.map, id_eq, hstyle]
  rfl

theorem SameButOrder.draft?_eq (h : SameButOrder a b ha hb path) (hshape : a.SameShape b)
    {request : Request} (hpath : request.path? ⟨a, options⟩ = some path) :
    draft? ⟨a, options⟩ ha request = none ∧ draft? ⟨b, options⟩ hb request = none ∨
      ∃ draft own, draft? ⟨a, options⟩ ha request = some draft ∧ draft.path = path ∧
        draft.components = ha.declared a path ∧
        draft? ⟨b, options⟩ hb request =
          some { draft with components := hb.declared b path, own } := by
  have hother : request.path? ⟨b, options⟩ = some path := by
    rw [← hpath]
    exact (hshape.resolve?_eq _ _ _).symm
  have hsegments := h.segments
  cases hreada : a.read path with
  | error _ =>
    cases hreadb : b.read path with
    | error _ => exact Or.inl ⟨by simp [draft?, hpath, hreada], by simp [draft?, hother, hreadb]⟩
    | ok _ => simp [hreada, hreadb, Except.toOption] at hsegments
  | ok source =>
    cases hreadb : b.read path with
    | error _ => simp [hreada, hreadb, Except.toOption] at hsegments
    | ok other =>
      simp only [hreada, hreadb, Except.toOption, Option.map_some, Option.some.injEq] at hsegments
      obtain ⟨own, hdraft⟩ := h.draft_eq request.data request.invocation hsegments
      refine Or.inr ⟨_, own, draft?_of_read ha hpath hreada, rfl, draft_components _ _ _ _ _ _, ?_⟩
      rw [draft?_of_read hb hother hreadb, hdraft]

/-- Where nothing is registered, components are compared by what their files declare. -/
theorem sameButOrder_of_isBare (hfirst : ha.IsBare) (hsecond : hb.IsBare)
    (hsegments : (a.read path).toOption.map (Segments.extract a (Path.parent path)) =
      (b.read path).toOption.map (Segments.extract b (Path.parent path)))
    (hdata : ((hb.definition? b path).getD .empty).data =
      ((ha.definition? a path).getD .empty).data)
    (hprops : ((hb.definition? b path).getD .empty).props =
      ((ha.definition? a path).getD .empty).props)
    (hdeclared : ha.declared a path = hb.declared b path ∨
      HasDistinctTags (ha.declared a path) ∧ (ha.declared a path).Perm (hb.declared b path)) :
    SameButOrder a b ha hb path where
  segments := hsegments
  definition := by
    have hone := hfirst.isPlain_definition? a path
    have htwo := hsecond.isPlain_definition? b path
    refine ⟨((hb.definition? b path).getD .empty).components, ?_⟩
    have hmethods := htwo.methods.trans hone.methods.symm
    have hfilters := htwo.filters.trans hone.filters.symm
    have hcreated := htwo.created.trans hone.created.symm
    rw [Definition.withComponents, ← hdata, ← hprops, ← hmethods, ← hfilters, ← hcreated]
  declared := hdeclared

end Reordered

/-! ## Putting children in in another order -/

section OrderFree

variable {setting : Setting} {host : Host} {depth : Nat} {draft : Draft} {components : ComponentMap}

theorem HasTextsApart.perm {html : Text} (h : HasTextsApart draft.components html)
    (hperm : draft.components.Perm components) : HasTextsApart components html :=
  fun c hc d hd ↦ h c (hperm.mem_iff.2 hc) d (hperm.mem_iff.2 hd)

/-- The tags of a page are the same with its components in another order. -/
theorem visits_perm (hdistinct : HasDistinctTags draft.components)
    (hapart : HasTextsApart draft.components draft.html)
    (hperm : draft.components.Perm components) :
    draft.visits.Perm (visits components draft.html) := by
  rw [Draft.visits, visits_eq_flatMap hdistinct.nodup hapart,
    visits_eq_flatMap (hperm.nodup_iff.1 hdistinct.nodup) (hapart.perm hperm)]
  exact hperm.flatMap_right _

/-- A page has the same tags, whether its components stand in this order or not. -/
theorem mem_visits_of_reorder {visit : Visit}
    (h : draft.components = components ∨
      HasDistinctTags draft.components ∧ draft.components.Perm components)
    (hfree : draft.components ≠ components → draft.IsOrderFree setting host depth)
    (hvisit : visit ∈ visits components draft.html) : visit ∈ draft.visits := by
  by_cases heq : draft.components = components
  · rw [Draft.visits, heq]
    exact hvisit
  · obtain ⟨hdistinct, hperm⟩ := h.resolve_left heq
    exact (visits_perm hdistinct (hfree heq).apart hperm).mem_iff.2 hvisit

/-- A page with its children put in is the same with its components in another order. -/
theorem Draft.IsOrderFree.substitute_eq (h : draft.IsOrderFree setting host depth)
    (hdistinct : HasDistinctTags draft.components) (hperm : draft.components.Perm components) :
    let replacement (visit : Visit) : Text × Text := (visit.tag.text,
      (outcomeTag setting host (childOutcome setting host depth) draft.page visit).output)
    substitute draft.html (draft.visits.map replacement) =
      substitute draft.html ((Component.visits components draft.html).map replacement) := by
  intro replacement
  rw [Draft.visits, visits_eq_flatMap hdistinct.nodup h.apart,
    visits_eq_flatMap (hperm.nodup_iff.1 hdistinct.nodup) (h.apart.perm hperm), List.map_flatMap,
    List.map_flatMap]
  exact substitute_eq_of_perm hperm h.swap

end OrderFree

/-! ## Outcomes -/

section Outcomes

variable {a b : FileTree} {options : Options} {ha hb : Host} {askings : List Asking}
  (hshape : a.SameShape b)
  (hclosed : ∀ {depth request child}, ⟨depth + 1, request⟩ ∈ askings →
    child ∈ childRequests ⟨a, options⟩ ha request → ⟨depth, child⟩ ∈ askings)
  (hsame : ∀ asking ∈ askings, ∀ path ∈ asking.request.path? ⟨a, options⟩,
    SameButOrder a b ha hb path)
  (hfree : ∀ asking ∈ askings, ∀ draft ∈ draft? ⟨a, options⟩ ha asking.request,
    draft.components ≠ hb.declared b draft.path →
      draft.IsOrderFree ⟨a, options⟩ ha asking.depth)

include hclosed hsame in
/-- A tag asks for the same child in both trees. -/
theorem childRequest_eq {depth : Nat} {request : Request} {draft : Draft}
    (hasking : ⟨depth + 1, request⟩ ∈ askings)
    (hdraft : draft? ⟨a, options⟩ ha request = some draft) {visit : Visit}
    (hvisit : visit ∈ draft.visits) {child : Path}
    (hchild : resolve? a options.extension draft.page.dir visit.file = some child) :
    childRequest ⟨b, options⟩ hb draft.page visit.tag child =
      childRequest ⟨a, options⟩ ha draft.page visit.tag child := by
  have hrequest : childRequest ⟨a, options⟩ ha draft.page visit.tag child ∈
      childRequests ⟨a, options⟩ ha request :=
    childRequest_mem_childRequests hdraft hvisit hchild
  have hmem := hclosed hasking hrequest
  have hpath : (childRequest ⟨a, options⟩ ha draft.page visit.tag child).path? ⟨a, options⟩ =
      some child :=
    resolve?_self (isCanonical_of_resolve? hchild) (isFile_of_resolve? hchild) draft.page.dir
  rw [childRequest, (hsame _ hmem child hpath).props_eq]
  rfl

include hshape hsame in
/-- Two drafts with the same tags, or none. -/
theorem exists_drafts {depth : Nat} {request : Request} (hasking : ⟨depth, request⟩ ∈ askings) :
    draft? ⟨a, options⟩ ha request = none ∧ draft? ⟨b, options⟩ hb request = none ∨
      ∃ draft own, draft? ⟨a, options⟩ ha request = some draft ∧
        draft? ⟨b, options⟩ hb request =
          some { draft with components := hb.declared b draft.path, own } ∧
        (draft.components = hb.declared b draft.path ∨
          HasDistinctTags draft.components ∧
            draft.components.Perm (hb.declared b draft.path)) := by
  cases hpath : request.path? ⟨a, options⟩ with
  | none =>
    have hother : request.path? ⟨b, options⟩ = none := by
      rw [← hpath]
      exact (hshape.resolve?_eq _ _ _).symm
    exact Or.inl ⟨by simp [draft?, hpath], by simp [draft?, hother]⟩
  | some path =>
    have hpages := hsame _ hasking path hpath
    rcases hpages.draft?_eq hshape hpath with hnone | ⟨draft, own, hfirst, rfl, hdeclared, hsecond⟩
    · exact Or.inl hnone
    · refine Or.inr ⟨draft, own, hfirst, hsecond, ?_⟩
      rw [hdeclared]
      exact hpages.declared

include hshape hclosed hsame hfree in
/-- What is asked for on the way is asked for in the first tree too. -/
theorem childRequests_subset {depth : Nat} {request : Request}
    (hasking : ⟨depth + 1, request⟩ ∈ askings) :
    childRequests ⟨b, options⟩ hb request ⊆ childRequests ⟨a, options⟩ ha request := by
  intro child hchild
  rcases exists_drafts hshape hsame hasking with ⟨_, hnone⟩ | ⟨draft, own, hfirst, hsecond, horder⟩
  · simp [childRequests, hnone] at hchild
  · rw [childRequests, hsecond, Option.map_some, Option.getD_some, Draft.requests,
      List.mem_filterMap] at hchild
    obtain ⟨visit, hvisit, hchild⟩ := hchild
    obtain ⟨path, hpath, rfl⟩ := Option.map_eq_some_iff.1 hchild
    have hresolve : resolve? a options.extension draft.page.dir visit.file = some path := by
      rw [hshape.resolve?_eq]
      exact hpath
    have hvisit' : visit ∈ draft.visits :=
      mem_visits_of_reorder horder (hfree _ hasking draft hfirst) hvisit
    have heq := childRequest_eq hclosed hsame hasking hfirst hvisit' hresolve
    have hmem : childRequest ⟨a, options⟩ ha draft.page visit.tag path ∈
        childRequests ⟨a, options⟩ ha request :=
      childRequest_mem_childRequests hfirst hvisit' hresolve
    rw [← heq] at hmem
    exact hmem

include hshape hclosed hsame hfree in
theorem asked_subset {depth : Nat} {request : Request} (hasking : ⟨depth, request⟩ ∈ askings) :
    asked ⟨b, options⟩ hb depth request ⊆ asked ⟨a, options⟩ ha depth request := by
  induction depth generalizing request with
  | zero => exact List.Subset.refl _
  | succ depth ih =>
    intro asking h
    rw [asked, List.mem_cons, List.mem_flatMap] at h ⊢
    apply h.imp_right
    rintro ⟨child, hchild, h⟩
    have hfirst := childRequests_subset hshape hclosed hsame hfree hasking hchild
    exact ⟨child, hfirst, ih (hclosed hasking hfirst) h⟩

include hshape hclosed hsame hfree in
/-- One component, given that its children come out the same. -/
theorem output_eq_of_children (htemplate : options.isEnabled .template = true) {depth : Nat}
    {request : Request} (hasking : ⟨depth, request⟩ ∈ askings)
    (hchildren : ∀ below, depth = below + 1 → ∀ child ∈ childRequests ⟨a, options⟩ ha request,
      (outcome ⟨b, options⟩ hb below child).output = (outcome ⟨a, options⟩ ha below child).output) :
    (outcome ⟨b, options⟩ hb depth request).output =
      (outcome ⟨a, options⟩ ha depth request).output := by
  rcases exists_drafts hshape hsame hasking with
    ⟨hfirst, hsecond⟩ | ⟨draft, own, hfirst, hsecond, horder⟩
  · rw [outcome_of_draft?_eq_none hsecond, outcome_of_draft?_eq_none hfirst]
  · have htag {visit : Visit} (hvisit : visit ∈ draft.visits) :
        (outcomeTag ⟨b, options⟩ hb (childOutcome ⟨b, options⟩ hb depth) draft.page visit).output =
          (outcomeTag ⟨a, options⟩ ha (childOutcome ⟨a, options⟩ ha depth) draft.page
            visit).output := by
      unfold outcomeTag
      simp only [← hshape.resolve?_eq]
      cases hpath : resolve? a options.extension draft.page.dir visit.file with
      | none => rfl
      | some path =>
        cases depth with
        | zero => rfl
        | succ below =>
          have hchild : childRequest ⟨a, options⟩ ha draft.page visit.tag path ∈
              childRequests ⟨a, options⟩ ha request :=
            childRequest_mem_childRequests hfirst hvisit hpath
          simp only [childOutcome]
          rw [childRequest_eq hclosed hsame hasking hfirst hvisit hpath]
          exact hchildren below rfl _ hchild
    let replacement (visit : Visit) : Text × Text := (visit.tag.text,
      (outcomeTag ⟨a, options⟩ ha (childOutcome ⟨a, options⟩ ha depth) draft.page visit).output)
    have hsubstitute : substitute draft.html (draft.visits.map replacement) =
        substitute draft.html
          ((visits (hb.declared b draft.path) draft.html).map replacement) := by
      by_cases heq : draft.components = hb.declared b draft.path
      · rw [Draft.visits, heq]
      · obtain ⟨hdistinct, hperm⟩ := horder.resolve_left heq
        exact (hfree _ hasking draft hfirst heq).substitute_eq hdistinct hperm
    have hreplacements (visit : Visit)
        (hvisit : visit ∈ visits (hb.declared b draft.path) draft.html) :
        (visit.tag.text, (outcomeTag ⟨b, options⟩ hb (childOutcome ⟨b, options⟩ hb depth) draft.page
          visit).output) = replacement visit :=
      Prod.ext rfl
        (htag (mem_visits_of_reorder horder (hfree _ hasking draft hfirst) hvisit))
    rw [output_of_draft? htemplate hsecond, output_of_draft? htemplate hfirst, hsubstitute]
    congr 4
    exact List.map_congr_left hreplacements

include hshape hclosed hsame hfree in
/-- Whatever is asked for comes out the same. -/
theorem outcome_output_eq (htemplate : options.isEnabled .template = true) {depth : Nat}
    {request : Request} (hasking : ⟨depth, request⟩ ∈ askings) :
    (outcome ⟨b, options⟩ hb depth request).output =
      (outcome ⟨a, options⟩ ha depth request).output := by
  induction depth generalizing request with
  | zero =>
    apply output_eq_of_children hshape hclosed hsame hfree htemplate hasking
    intro below hbelow
    exact absurd hbelow.symm (Nat.succ_ne_zero below)
  | succ depth ih =>
    apply output_eq_of_children hshape hclosed hsame hfree htemplate hasking
    intro below hbelow child hchild
    obtain rfl : depth = below := Nat.succ.inj hbelow
    exact ih (hclosed hasking hchild)

end Outcomes

end Component

end ComponentMarkup

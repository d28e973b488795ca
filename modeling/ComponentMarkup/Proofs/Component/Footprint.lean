import ComponentMarkup.Proofs.Component.Alike
import ComponentMarkup.Proofs.Component.Resolve
import ComponentMarkup.Proofs.Segment.Source

/-!
# What an outcome depends on

The files that an outcome depends on decide it: if every one of them has in another tree the stamp
that was recorded for it, then a request for the same component with a like input comes out the
same there. The trees have to agree where stamps do, and what is asked for has to be orderly: it can
be read, its references are followed within directories without going up and name no directories,
and nothing is cut off below it.
-/

namespace ComponentMarkup

open Component ComponentMarkup.Path Json.Value

namespace Segment

variable {a b : FileTree} {dir : Path} {source : Text} {kind : SegmentKind}

theorem load_eq {attributes : Attributes} {inner : Text}
    (h : inner = [] → ∀ src ∈ localSrc? attributes,
      Reference.path a dir src = Reference.path b dir src ∧
        a.textOf (Reference.path a dir src) = b.textOf (Reference.path a dir src)) :
    load a dir attributes inner = load b dir attributes inner := by
  by_cases hinner : inner = []
  · subst hinner
    cases hsrc : localSrc? attributes with
    | none => rw [load_nil_of_localSrc?_eq_none hsrc, load_nil_of_localSrc?_eq_none hsrc]
    | some src =>
      obtain ⟨hpath, htext⟩ := h rfl src hsrc
      rw [load_nil_of_mem_localSrc? hsrc, load_nil_of_mem_localSrc? hsrc, ← hpath, htext]
  · rw [load_of_ne_nil hinner, load_of_ne_nil hinner]

/-- A segment is the same in trees where its file is read to the same. -/
theorem extract_eq (hrelative : ∀ src ∈ localSource? source kind, isAbsolute src = false)
    (hread : ∀ path, (extract a dir source kind).source = some path →
      (a.read path).toOption = (b.read path).toOption) :
    extract a dir source kind = extract b dir source kind := by
  rw [source_extract] at hread
  unfold localSource? at hrelative hread
  unfold extract
  cases hoccurrences : Tag.occurrences .ignored kind.tagName source with
  | nil => rfl
  | cons occurrence rest =>
    simp only [hoccurrences] at hrelative hread
    have hload : load a dir (Attributes.parse occurrence.attributes) occurrence.innerText =
        load b dir (Attributes.parse occurrence.attributes) occurrence.innerText := by
      apply load_eq
      intro hinner src hsrc
      rw [localSrc?] at hsrc
      have hlocal : isAbsolute src = false := hrelative src (by simpa [hinner] using hsrc)
      have hpath (tree : FileTree) := Reference.path_of_relative hlocal tree dir
      have hsame := hread (Reference.path a dir src) (by simp [hinner, Option.mem_def.1 hsrc])
      exact ⟨by rw [hpath, hpath], by rw [FileTree.textOf, hsame, FileTree.textOf]⟩
    simp only [hload]

end Segment

/-- The segments are the same in trees where their files are read to the same. -/
theorem Segments.extract_eq {a b : FileTree} {dir : Path} {source : Text}
    (hrelative : ∀ src ∈ localSources source, isAbsolute src = false)
    (hread : ∀ path ∈ (Segments.extract a dir source).sources,
      (a.read path).toOption = (b.read path).toOption) :
    Segments.extract a dir source = Segments.extract b dir source := by
  have hsegment (kind : SegmentKind) :
      Segment.extract a dir source kind = Segment.extract b dir source kind := by
    apply Segment.extract_eq
    · intro src hsrc
      exact hrelative src (List.mem_filterMap.2 ⟨kind, by cases kind <;> decide, hsrc⟩)
    · intro path hpath
      apply hread
      apply List.mem_filterMap.2
      cases kind <;> exact ⟨_, by simp [Segments.extract], hpath⟩
  simp only [Segments.extract, hsegment]

namespace Component

/-- What is asked for can be read, its references are followed within directories without going up
and name no directories, and nothing is cut off below it. -/
structure Asking.IsOrderly (setting : Setting) (host : Host) (asking : Asking) : Prop where
  readable : ∀ path ∈ asking.request.path? setting, (setting.tree.read path).toOption.isSome = true
  uncut : asking.depth = 0 → childRequests setting host asking.request = []
  references : ∀ draft ∈ draft? setting host asking.request, ∀ visit ∈ draft.visits,
    isAbsolute visit.file = false ∧ IsDownward visit.file ∧
      setting.tree.isDirectory (Path.join draft.page.dir visit.file) = false
  sources : ∀ path ∈ asking.request.path? setting, ∀ source ∈ (setting.tree.read path).toOption,
    ∀ src ∈ Segments.localSources source, isAbsolute src = false

instance (setting : Setting) (host : Host) (asking : Asking) :
    Decidable (asking.IsOrderly setting host) :=
  decidable_of_iff
    ((∀ path ∈ asking.request.path? setting,
        (setting.tree.read path).toOption.isSome = true) ∧
      (asking.depth = 0 → (childRequests setting host asking.request).isEmpty = true) ∧
      (∀ draft ∈ draft? setting host asking.request, ∀ visit ∈ draft.visits,
        isAbsolute visit.file = false ∧ IsDownward visit.file ∧
          setting.tree.isDirectory (Path.join draft.page.dir visit.file) = false) ∧
      ∀ path ∈ asking.request.path? setting, ∀ source ∈ (setting.tree.read path).toOption,
        ∀ src ∈ Segments.localSources source, isAbsolute src = false)
    ⟨fun ⟨h₁, h₂, h₃, h₄⟩ ↦ ⟨h₁, fun h ↦ List.isEmpty_iff.1 (h₂ h), h₃, h₄⟩,
      fun h ↦ ⟨h.readable, fun h0 ↦ List.isEmpty_iff.2 (h.uncut h0), h.references, h.sources⟩⟩

/-! ## Drafts in two trees -/

/-- Every file has in a tree the stamp that was recorded for it. -/
def AllCurrent (tree : FileTree) (dependencies : List Dependency) : Prop :=
  ∀ dependency ∈ dependencies, tree.stamp dependency.path = dependency.modified

section Trees

variable {a b : FileTree} {options : Options} {host : Host}
  (hagree : FileTree.Agrees a b) (ha : a.IsStamped) (hb : b.IsStamped)

include hagree ha hb

theorem toOption_read_of_current {path : Path}
    (h : b.stamp path = (Dependency.of a path).modified) :
    (a.read path).toOption = (b.read path).toOption :=
  FileTree.toOption_read_of_sight_eq (hagree.find? ha hb h.symm)

/-- The definition of a component is the same where its sidecar has the same stamp. -/
theorem definition?_of_current (hbare : host.IsBare) {path : Path}
    (h : b.stamp (host.sidecar path) = (Dependency.of a (host.sidecar path)).modified) :
    host.definition? a path = host.definition? b path := by
  have hread := toOption_read_of_current hagree ha hb h
  have hsidecar : host.sidecarDefinition? a path = host.sidecarDefinition? b path := by
    unfold Host.sidecarDefinition?
    cases hra : a.read (host.sidecar path) <;> cases hrb : b.read (host.sidecar path) <;>
      simp_all [Except.toOption]
  have hregistered (tree : FileTree) : host.registered? tree path = none := by
    simp [Host.registered?, show host.registered = [] from hbare]
  rw [Host.definition?, Host.definition?, hsidecar, hregistered, hregistered]

/-- The draft of a component is the same where the files other than children that it depends on
have the same stamps. -/
theorem draft_of_current (hbare : host.IsBare) {path : Path} {source : Text}
    (hrelative : ∀ src ∈ Segments.localSources source, isAbsolute src = false) (data : Data)
    (invocation : Attributes)
    (hown : AllCurrent b (draft ⟨a, options⟩ host path data invocation source).own) :
    draft ⟨b, options⟩ host path data invocation source =
      draft ⟨a, options⟩ host path data invocation source := by
  let segments := Segments.extract a (Path.parent path) source
  have hcurrent {file : Path} (h : file ∈ host.dependencies path ++ segments.sources) :
      b.stamp file = (Dependency.of a file).modified :=
    hown _ (List.mem_map.2 ⟨file, h, rfl⟩)
  have hsegments : segments = Segments.extract b (Path.parent path) source := by
    apply Segments.extract_eq hrelative
    intro file hfile
    exact toOption_read_of_current hagree ha hb (hcurrent (List.mem_append_right _ hfile))
  have hdefinition : host.definition? a path = host.definition? b path :=
    definition?_of_current hagree ha hb hbare
      (hcurrent (List.mem_append_left _ (List.mem_singleton_self _)))
  have hmodel : (host.model b path data).1 = (host.model a path data).1 := by
    rw [Host.model, Host.model, hdefinition]
  have hown' : (host.dependencies path ++ segments.sources).map (Dependency.of b) =
      (host.dependencies path ++ segments.sources).map (Dependency.of a) := by
    apply List.map_congr_left
    intro file hfile
    rw [Dependency.of, Dependency.of, Dependency.mk.injEq]
    exact ⟨rfl, hcurrent hfile⟩
  unfold draft
  simp only [hmodel, ← hsegments]
  rw [show (host.dependencies path ++ (Segments.extract a (Path.parent path) source).sources).map
    (Dependency.of b) = _ from hown']
  rfl

end Trees

/-! ## Outcomes in two trees -/

section Trees

variable {a b : FileTree} {options : Options} {host : Host}
  (hagree : FileTree.Agrees a b) (ha : a.IsStamped) (hb : b.IsStamped) (hbare : host.IsBare)

/-- The requests of a tag in two trees: the child is the same component and is given the same. -/
structure SameChild (a b : FileTree) (options : Options) (host : Host) (page other : Page)
    (visit : Visit) (child : Path) : Prop where
  resolved : resolve? b options.extension other.dir visit.file = some child
  path : (childRequest ⟨a, options⟩ host page visit.tag child).path? ⟨a, options⟩ = some child
  otherPath : (childRequest ⟨b, options⟩ host other visit.tag child).path? ⟨b, options⟩ = some child
  data : outlineMembers (childRequest ⟨a, options⟩ host page visit.tag child).data =
    outlineMembers (childRequest ⟨b, options⟩ host other visit.tag child).data

include hagree ha hb hbare in
theorem sameChild_of_current {page : Page} (hdir : page.dir.IsDownward) {data : Data}
    (hdata : outlineMembers page.data = outlineMembers data) {visit : Visit}
    (hrelative : isAbsolute visit.file = false) (hdown : visit.file.IsDownward)
    (hnot : a.isDirectory (Path.join page.dir visit.file) = false) {child : Path}
    (hchild : resolve? a options.extension page.dir visit.file = some child)
    (hself : b.stamp child = a.stamp child)
    (hsidecar : b.stamp (host.sidecar child) = a.stamp (host.sidecar child)) :
    SameChild a b options host page { page with data } visit child := by
  have hcanonical := isCanonical_of_resolve? hchild
  have hother := resolve?_of_agrees_some hagree ha hb hrelative hnot hdir hdown hchild hself.symm
  have hprops : host.props a child = host.props b child := by
    rw [Host.props, Host.props, definition?_of_current hagree ha hb hbare hsidecar]
  refine ⟨hother, ?_, ?_, ?_⟩
  · exact resolve?_self hcanonical (isFile_of_resolve? hchild) page.dir
  · exact resolve?_self hcanonical (isFile_of_resolve? hother) page.dir
  · show outlineMembers (childData (host.props a child) _ _ _ _) =
      outlineMembers (childData (host.props b child) _ _ _ _)
    rw [hprops]
    exact outline_childData _ _ _ _ hdata

end Trees

/-- Nothing is cut off below what is asked for. -/
def Uncut (setting : Setting) (host : Host) (askings : List Asking) : Prop :=
  ∀ asking ∈ askings, asking.depth = 0 → childRequests setting host asking.request = []

/-- Like requests for one component in two trees. In the first tree all is orderly, and all that
the outcome depends on has the stamps that were recorded there. -/
structure Recurs (a b : FileTree) (options : Options) (host : Host) (depth n : Nat)
    (r s : Request) (path : Path) : Prop where
  named : r.path? ⟨a, options⟩ = some path
  otherNamed : s.path? ⟨b, options⟩ = some path
  invocation : r.invocation = s.invocation
  data : outlineMembers r.data = outlineMembers s.data
  orderly : ∀ asking ∈ asked ⟨a, options⟩ host depth r, asking.IsOrderly ⟨a, options⟩ host
  uncut : Uncut ⟨b, options⟩ host (asked ⟨b, options⟩ host n s)
  current : AllCurrent b (outcome ⟨a, options⟩ host depth r).dependencies

/-- What is orderly and is resolved can be read. -/
theorem Asking.IsOrderly.exists_read {setting : Setting} {host : Host} {asking : Asking}
    (h : asking.IsOrderly setting host) {path : Path}
    (hpath : asking.request.path? setting = some path) :
    ∃ source, setting.tree.read path = .ok source := by
  have hreadable := h.readable path hpath
  cases hread : setting.tree.read path with
  | ok source => exact ⟨source, rfl⟩
  | error error => simp [hread, Except.toOption] at hreadable

/-- An outcome depends on the files of its draft, on its children and on the component. -/
theorem allCurrent_finish {b : FileTree} {setting : Setting} {draft : Draft}
    {results : List Rendered} (h : AllCurrent b (draft.finish setting results).dependencies) :
    AllCurrent b draft.own ∧ (∀ result ∈ results, AllCurrent b result.dependencies) ∧
      b.stamp draft.path = setting.tree.stamp draft.path := by
  have hmem {dependency : Dependency}
      (hd : dependency ∈ draft.own ∨ dependency ∈ results.flatMap Rendered.dependencies ∨
        dependency = Dependency.of setting.tree draft.path) :
      b.stamp dependency.path = dependency.modified := by
    apply h
    simpa [Draft.finish, or_assoc] using hd
  refine ⟨fun d hd ↦ hmem (Or.inl hd), fun result hresult d hd ↦ ?_, hmem (Or.inr (Or.inr rfl))⟩
  exact hmem (Or.inr (Or.inl (List.mem_flatMap.2 ⟨result, hresult, hd⟩)))

namespace Recurs

variable {a b : FileTree} {options : Options} {host : Host} {depth n : Nat} {r s : Request}
  {path : Path} (hagree : FileTree.Agrees a b) (ha : a.IsStamped) (hb : b.IsStamped)
  (hbare : host.IsBare) (h : Recurs a b options host depth n r s path)

include h in
theorem orderly_self : Asking.IsOrderly ⟨a, options⟩ host ⟨depth, r⟩ :=
  h.orderly _ (self_mem_asked _ _ _ _)

include hagree ha hb hbare h in
/-- The drafts in both trees differ in their data only, and there the outlines are the same. -/
theorem exists_drafts :
    ∃ draft data, draft? ⟨a, options⟩ host r = some draft ∧ draft.path = path ∧
      draft? ⟨b, options⟩ host s = some { draft with data } ∧
      outlineMembers draft.data = outlineMembers data := by
  obtain ⟨source, hread⟩ := h.orderly_self.exists_read h.named
  have hdraft := draft?_of_read host h.named hread
  have hcurrent := h.current
  rw [outcome_of_draft? hdraft] at hcurrent
  obtain ⟨hown, _, hself⟩ := allCurrent_finish hcurrent
  have hother : b.read path = .ok source :=
    FileTree.read_of_sight_eq (hagree.find? ha hb hself.symm) hread
  have hrelative := h.orderly_self.sources path h.named source (by rw [hread]; rfl)
  have hsame := draft_of_current hagree ha hb hbare hrelative r.data r.invocation hown
  obtain ⟨data, hdata, halike⟩ := draft_alike ⟨b, options⟩ hbare path h.data r.invocation source
  rw [hsame] at hdata halike
  refine ⟨_, data, hdraft, rfl, ?_, hdata⟩
  rw [draft?_of_read host h.otherNamed hother, ← h.invocation, halike]

/-- The children of a tag in both trees are like requests again. -/
theorem child (hagree : FileTree.Agrees a b) (ha : a.IsStamped) (hb : b.IsStamped)
    (hbare : host.IsBare) (h : Recurs a b options host (depth + 1) n r s path)
    {draft : Draft} {data : Data} (hdraft : draft? ⟨a, options⟩ host r = some draft)
    (hother : draft? ⟨b, options⟩ host s = some { draft with data })
    (hdata : outlineMembers draft.data = outlineMembers data) (hpath : draft.path = path)
    {visit : Visit} (hvisit : visit ∈ draft.visits) {file : Path}
    (hchild : resolve? a options.extension draft.page.dir visit.file = some file) :
    resolve? b options.extension draft.page.dir visit.file = some file ∧
      ∀ m, n = m + 1 →
        Recurs a b options host depth m (childRequest ⟨a, options⟩ host draft.page visit.tag file)
          (childRequest ⟨b, options⟩ host { draft.page with data } visit.tag file) file := by
  have hself := h.orderly_self
  have hcanonical : path.IsCanonical := isCanonical_of_resolve? h.named
  have hdir : draft.page.dir.IsDownward := by
    rw [Draft.page, hpath]
    exact hcanonical.isDownward.parent
  obtain ⟨hrelative, hdown, hnot⟩ := hself.references draft hdraft visit hvisit
  let request := childRequest ⟨a, options⟩ host draft.page visit.tag file
  have hrequest : request ∈ childRequests ⟨a, options⟩ host r :=
    childRequest_mem_childRequests hdraft hvisit hchild
  have horderly : ∀ asking ∈ asked ⟨a, options⟩ host depth request,
      asking.IsOrderly ⟨a, options⟩ host := by
    intro asking hasking
    exact h.orderly asking
      (List.mem_cons_of_mem _ (List.mem_flatMap.2 ⟨request, hrequest, hasking⟩))
  have hnamed : request.path? ⟨a, options⟩ = some file :=
    resolve?_self (isCanonical_of_resolve? hchild) (isFile_of_resolve? hchild) draft.page.dir
  obtain ⟨source, hread⟩ := (horderly _ (self_mem_asked _ _ _ _)).exists_read hnamed
  -- The outcome of the child is one of the results that the outcome depends on.
  have hcurrent : AllCurrent b (outcome ⟨a, options⟩ host depth request).dependencies := by
    have hall := h.current
    rw [outcome_of_draft? hdraft] at hall
    have hresult := (allCurrent_finish hall).2.1 _ (List.mem_map.2 ⟨visit, hvisit, rfl⟩)
    simpa only [outcomeTag, hchild, childOutcome] using hresult
  have hchildDraft := draft?_of_read host hnamed hread
  have hfinish := hcurrent
  rw [outcome_of_draft? hchildDraft] at hfinish
  obtain ⟨hown, _, hstamp⟩ := allCurrent_finish hfinish
  have hsidecar : b.stamp (host.sidecar file) = a.stamp (host.sidecar file) := by
    apply hown (Dependency.of a (host.sidecar file))
    exact List.mem_map.2 ⟨_, List.mem_append_left _ (List.mem_singleton_self _), rfl⟩
  have hsame : SameChild a b options host draft.page { draft.page with data } visit file :=
    sameChild_of_current hagree ha hb hbare hdir hdata hrelative hdown hnot hchild hstamp hsidecar
  refine ⟨hsame.resolved, fun m hm ↦ ?_⟩
  subst hm
  refine ⟨hnamed, hsame.otherPath, rfl, hsame.data, horderly, ?_, hcurrent⟩
  intro asking hasking
  have hotherRequest := childRequest_mem_childRequests hother hvisit hsame.resolved
  exact h.uncut asking
    (List.mem_cons_of_mem _ (List.mem_flatMap.2 ⟨_, hotherRequest, hasking⟩))

/-- A tag comes out the same in both trees, if its child does. -/
theorem outcomeTag_eq (hagree : FileTree.Agrees a b) (ha : a.IsStamped) (hb : b.IsStamped)
    (hbare : host.IsBare) (h : Recurs a b options host depth n r s path)
    (ih : ∀ {d m : Nat} {r s : Request} {path : Path}, depth = d + 1 →
      Recurs a b options host d m r s path →
      outcome ⟨b, options⟩ host m s = outcome ⟨a, options⟩ host d r)
    {draft : Draft} {data : Data} (hdraft : draft? ⟨a, options⟩ host r = some draft)
    (hother : draft? ⟨b, options⟩ host s = some { draft with data })
    (hdata : outlineMembers draft.data = outlineMembers data) (hpath : draft.path = path)
    {visit : Visit} (hvisit : visit ∈ draft.visits) :
    outcomeTag ⟨b, options⟩ host (childOutcome ⟨b, options⟩ host n) { draft.page with data } visit =
      outcomeTag ⟨a, options⟩ host (childOutcome ⟨a, options⟩ host depth) draft.page visit := by
  have hself := h.orderly_self
  obtain ⟨hrelative, hdown, hnot⟩ := hself.references draft hdraft visit hvisit
  cases hchild : resolve? a options.extension draft.page.dir visit.file with
  | none =>
    have hall := h.current
    rw [outcome_of_draft? hdraft] at hall
    have hresult := (allCurrent_finish hall).2.1 _ (List.mem_map.2 ⟨visit, hvisit, rfl⟩)
    simp only [outcomeTag, hchild] at hresult
    have hplace := Reference.path_of_relative hrelative
    have hstamp : b.stamp (Path.join draft.page.dir visit.file) =
        a.stamp (Path.join draft.page.dir visit.file) := by
      have := hresult _ (List.mem_singleton_self _)
      rwa [hplace] at this
    have hresolved := resolve?_of_agrees_none hb hrelative hnot hchild hstamp.symm
    unfold outcomeTag
    simp only [hchild, hresolved, hplace, Dependency.of, hstamp]
  | some file =>
    cases depth with
    | zero =>
      have hmem := childRequest_mem_childRequests hdraft hvisit hchild
      rw [hself.uncut rfl] at hmem
      exact absurd hmem List.not_mem_nil
    | succ depth =>
      obtain ⟨hresolved, hrecurs⟩ :=
        h.child hagree ha hb hbare hdraft hother hdata hpath hvisit hchild
      cases n with
      | zero =>
        have hmem := childRequest_mem_childRequests hother hvisit hresolved
        rw [h.uncut _ (self_mem_asked _ _ _ _) rfl] at hmem
        exact absurd hmem List.not_mem_nil
      | succ n =>
        have hsame := ih rfl (hrecurs n rfl)
        unfold outcomeTag
        simp only [hchild, hresolved]
        exact hsame

end Recurs

/-- Where all files that an outcome depends on have the stamps that were recorded for them, a like
request for the same component has the same outcome. -/
theorem outcome_of_recurs {a b : FileTree} {options : Options} {host : Host}
    (hagree : FileTree.Agrees a b) (ha : a.IsStamped) (hb : b.IsStamped) (hbare : host.IsBare)
    {depth n : Nat} {r s : Request} {path : Path}
    (h : Recurs a b options host depth n r s path) :
    outcome ⟨b, options⟩ host n s = outcome ⟨a, options⟩ host depth r := by
  induction depth using Nat.strong_induction_on generalizing n r s path with
  | _ depth ih =>
    obtain ⟨draft, data, hdraft, hpath, hother, hdata⟩ := h.exists_drafts hagree ha hb hbare
    have htags : draft.visits.map (outcomeTag ⟨b, options⟩ host
          (childOutcome ⟨b, options⟩ host n) { draft.page with data }) =
        draft.visits.map (outcomeTag ⟨a, options⟩ host
          (childOutcome ⟨a, options⟩ host depth) draft.page) := by
      apply List.map_congr_left
      intro visit hvisit
      apply h.outcomeTag_eq hagree ha hb hbare _ hdraft hother hdata hpath hvisit
      intro d m r s path hd hrecurs
      exact ih d (by omega) hrecurs
    have hall := h.current
    rw [outcome_of_draft? hdraft] at hall
    have hstamp := (allCurrent_finish hall).2.2
    rw [outcome_of_draft? hdraft, outcome_of_draft? hother]
    have hpage : Draft.page { draft with data } = { draft.page with data } := rfl
    show Draft.finish ⟨b, options⟩ { draft with data } (draft.visits.map _) = _
    rw [hpage, htags]
    simp only [Draft.finish, Dependency.of]
    rw [show b.stamp draft.path = a.stamp draft.path from hstamp]
    rfl

end Component

end ComponentMarkup

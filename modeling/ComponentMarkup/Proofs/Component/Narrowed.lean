import ComponentMarkup.Proofs.Cache.InStep
import ComponentMarkup.Proofs.Component.Calls

/-!
# Renderings narrowed to one kind

A setting that writes segments of one kind only renders the same components in the same order as
the setting that writes all of them: templates are filled to find children whether they are written
or not, and what is written is no part of what the cache is asked for. So the two go on in unison.
Their caches hold entries for the same inputs with the same dependencies, and their calls of the
renderer of that kind are the same.
-/

namespace ComponentMarkup.Component

/-- Segments of one kind are written, and no others. -/
def Setting.WritesOnly (setting : Setting) (kind : SegmentKind) : Prop :=
  ∀ other, setting.options.isEnabled other = true ↔ other = kind

/-- The setting that writes segments of one kind only. -/
def Setting.only (setting : Setting) (kind : SegmentKind) : Setting :=
  { setting with options := setting.options.only kind }

theorem Setting.writesOnly_only (setting : Setting) (kind : SegmentKind) :
    (setting.only kind).WritesOnly kind := by
  intro other
  cases other <;> simp [only, Options.only, Options.isEnabled, eq_comm]

/-- Entries for the same file and input that depend on the same; their outputs may differ. -/
structure EntryAlike (x y : Path × Cache.Entry) : Prop where
  path : x.1 = y.1
  modified : x.2.modified = y.2.modified
  fingerprint : x.2.fingerprint = y.2.fingerprint
  dependencies : x.2.dependencies = y.2.dependencies

theorem sameKeys_entryAlike (path : Path) : Cache.SameKeys EntryAlike path path := by
  intro x y hxy
  rw [hxy.path]

/-- States of two renderings that have made the same calls of one kind. -/
structure InUnison (kind : SegmentKind) (s t : State) : Prop where
  gives : s.host.now = t.host.now
  steady : s.host.IsSteady
  otherSteady : t.host.IsSteady
  cache : Cache.InStep EntryAlike (fun _ ↦ false) s.cache t.cache
  calls : s.callsOf kind = t.callsOf kind

section Unison

variable {setting : Setting} {kind : SegmentKind} {s t : State}

theorem InUnison.props_eq (h : InUnison kind s t) (tree : FileTree) (path : Path) :
    s.host.props tree path = t.host.props tree path := by
  rw [← Host.props_now, h.gives, Host.props_now]

theorem InUnison.draft_eq (h : InUnison kind s t) (path : Path) (data : Data)
    (invocation : Attributes) (source : Text) :
    draft setting s.host path data invocation source =
      draft setting t.host path data invocation source := by
  rw [← draft_now, h.gives, draft_now]

theorem InUnison.ownCall_eq (h : InUnison kind s t) (path : Path) (data : Data) (source : Text) :
    ownCall setting s.host path data source kind = ownCall setting t.host path data source kind := by
  rw [← ownCall_now, h.gives, ownCall_now]

variable {request : Request} {path : Path} {source : Text}

/-- Both caches find entries for the same input, or neither does. -/
theorem InUnison.lookup (h : InUnison kind s t) :
    Cache.LooksUp EntryAlike (fun _ ↦ false) s.cache t.cache (s.lookup setting path request)
      (t.lookup (setting.only kind) path request) := by
  apply h.cache.get (fun _ ↦ rfl) (sameKeys_entryAlike path) rfl
  intro x y hxy _
  unfold Cache.Entry.isFresh
  rw [hxy.modified, hxy.fingerprint, hxy.dependencies]
  rfl

/-- The states in which the children of a component file are rendered. -/
theorem InUnison.begun (hkind : kind ≠ .template)
    (h : InUnison kind (s.looked setting path request) (t.looked (setting.only kind) path request)) :
    InUnison kind (begun setting s request path source)
      (begun (setting.only kind) t request path source) := by
  have hsteady := h.steady.advance setting.tree path
  have hother := h.otherSteady.advance setting.tree path
  have hdrop (input : Template.Input) (output : Text) (state : State) :
      (state.calls ++ [Call.template input output]).filter (fun call ↦ call.kind = kind) =
        state.callsOf kind := by
    rw [List.filter_append, State.callsOf]
    simp [Call.kind, Ne.symm hkind]
  constructor
  · exact hsteady.2.trans (h.gives.trans hother.2.symm)
  · exact hsteady.1
  · exact hother.1
  · exact h.cache
  · calc
      (Component.begun setting s request path source).callsOf kind =
          (s.looked setting path request).callsOf kind := hdrop _ _ _
      _ = (t.looked (setting.only kind) path request).callsOf kind := h.calls
      _ = (Component.begun (setting.only kind) t request path source).callsOf kind :=
        (hdrop _ _ _).symm

end Unison

/-- Requests at a depth are rendered in unison. -/
def RendersInUnison (setting : Setting) (kind : SegmentKind) (depth : Nat) : Prop :=
  ∀ (request : Request) (s t : State), InUnison kind s t →
    (render setting depth s request).1.dependencies =
        (render (setting.only kind) depth t request).1.dependencies ∧
      InUnison kind (render setting depth s request).2 (render (setting.only kind) depth t request).2

section Components

variable {setting : Setting} {kind : SegmentKind} {depth : Nat}
  (hbelow : ∀ n, depth = n + 1 → RendersInUnison setting kind n)

include hbelow

theorem renderTag_inUnison (page : Page) (visit : Visit) {s t : State} (h : InUnison kind s t) :
    let first := renderTag setting (childRenderer setting depth) page visit.file s visit.tag
    let second := renderTag (setting.only kind) (childRenderer (setting.only kind) depth) page
      visit.file t visit.tag
    first.1.dependencies = second.1.dependencies ∧ InUnison kind first.2 second.2 := by
  have hresolve : resolve? (setting.only kind).tree (setting.only kind).options.extension page.dir
      visit.file = resolve? setting.tree setting.options.extension page.dir visit.file := rfl
  unfold renderTag
  rw [hresolve]
  cases resolve? setting.tree setting.options.extension page.dir visit.file with
  | none => exact ⟨rfl, h⟩
  | some path =>
    cases depth with
    | zero => exact ⟨rfl, h⟩
    | succ n =>
      have hprops : t.host.props (setting.only kind).tree path = s.host.props setting.tree path :=
        (h.props_eq setting.tree path).symm
      simp only [hprops]
      exact hbelow n rfl _ s t h

theorem renderVisits_inUnison (page : Page) (visits : List Visit) {s t : State}
    (h : InUnison kind s t) :
    let first := renderVisits setting (childRenderer setting depth) page visits s
    let second := renderVisits (setting.only kind) (childRenderer (setting.only kind) depth) page
      visits t
    first.1.map Rendered.dependencies = second.1.map Rendered.dependencies ∧
      InUnison kind first.2 second.2 := by
  induction visits generalizing s t with
  | nil => exact ⟨rfl, h⟩
  | cons visit rest ih =>
    obtain ⟨hfirst, hafter⟩ := renderTag_inUnison hbelow page visit h
    obtain ⟨hothers, hlast⟩ := ih hafter
    exact ⟨congrArg₂ List.cons hfirst hothers, hlast⟩

/-- The children of a component file that both renderings read. -/
theorem childResults_inUnison (hkind : kind ≠ .template) (source : Text) {request : Request}
    {path : Path} {s t : State} (hstate : InUnison kind s t)
    (h : InUnison kind (s.looked setting path request) (t.looked (setting.only kind) path request)) :
    let first := childResults setting (childRenderer setting depth) s request path source
    let second := childResults (setting.only kind) (childRenderer (setting.only kind) depth) t
      request path source
    first.1.map Rendered.dependencies = second.1.map Rendered.dependencies ∧
      InUnison kind first.2 second.2 := by
  let d := drafted setting s request path source
  have hdraft : drafted setting t request path source = d :=
    (hstate.draft_eq path request.data request.invocation source).symm
  have hpage : (drafted (setting.only kind) t request path source).page = d.page := by
    rw [← hdraft]
    rfl
  have hvisits : (drafted (setting.only kind) t request path source).visits = d.visits := by
    rw [← hdraft]
    rfl
  unfold childResults
  dsimp only
  rw [hpage, hvisits]
  exact renderVisits_inUnison hbelow d.page d.visits (h.begun hkind)

theorem render_inUnison_of_reads (hkind : kind ≠ .template)
    (henabled : setting.options.isEnabled kind = true) {request : Request} {path : Path}
    {source : Text} {s t : State} (hstate : InUnison kind s t)
    (h : InUnison kind (s.looked setting path request) (t.looked (setting.only kind) path request))
    (hfirst : Reads setting s request path source)
    (hsecond : Reads (setting.only kind) t request path source) :
    (render setting depth s request).1.dependencies =
        (render (setting.only kind) depth t request).1.dependencies ∧
      InUnison kind (render setting depth s request).2
        (render (setting.only kind) depth t request).2 := by
  obtain ⟨hresults, hafter⟩ := childResults_inUnison hbelow hkind source hstate h
  have hflat := congrArg List.flatten hresults
  rw [← List.flatMap_def, ← List.flatMap_def] at hflat
  have hown : (drafted setting s request path source).own =
      (drafted (setting.only kind) t request path source).own := by
    calc
      (drafted setting s request path source).own = (drafted setting t request path source).own :=
        congrArg Draft.own (hstate.draft_eq path request.data request.invocation source)
      _ = (drafted (setting.only kind) t request path source).own := rfl
  have hdependencies :
      (madeEntry setting (childRenderer setting depth) s request path source).dependencies =
        (madeEntry (setting.only kind) (childRenderer (setting.only kind) depth) t request path
          source).dependencies := congrArg₂ (· ++ ·) hown hflat
  have henabledOnly : (setting.only kind).options.isEnabled kind = true :=
    (setting.writesOnly_only kind kind).2 rfl
  have hcalls : (rendered setting (childRenderer setting depth) s request path source).callsOf kind =
      (rendered (setting.only kind) (childRenderer (setting.only kind) depth) t request path
        source).callsOf kind := by
    rw [callsOf_rendered hkind henabled, callsOf_rendered hkind henabledOnly, hafter.calls,
      hstate.ownCall_eq]
    rfl
  rw [render_of_reads hfirst depth, render_of_reads hsecond depth]
  constructor
  · exact congrArg (· ++ [Dependency.of setting.tree path]) hdependencies
  · constructor
    · exact hafter.gives
    · exact hafter.steady
    · exact hafter.otherSteady
    · exact hafter.cache.set (sameKeys_entryAlike path) rfl ⟨rfl, rfl, rfl, hdependencies⟩
    · exact hcalls

/-- One component, given that the components below it are rendered in unison. -/
theorem rendersInUnison_of_below (hkind : kind ≠ .template)
    (henabled : setting.options.isEnabled kind = true) : RendersInUnison setting kind depth := by
  intro request s t h
  cases hpath : request.path? setting with
  | none =>
    have hother : request.path? (setting.only kind) = none := hpath
    rw [render_of_path?_eq_none hpath, render_of_path?_eq_none hother]
    exact ⟨rfl, h⟩
  | some path =>
    have hother : request.path? (setting.only kind) = some path := hpath
    have hlookup : Cache.LooksUp EntryAlike (fun _ ↦ false) s.cache t.cache
        (s.lookup setting path request) (t.lookup (setting.only kind) path request) := h.lookup
    generalize hfirst : s.lookup setting path request = first at hlookup
    generalize hsecond : t.lookup (setting.only kind) path request = second at hlookup
    cases hlookup with
    | @hit x y hxy =>
      rw [render_of_lookup hpath (by rw [hfirst]), render_of_lookup hother (by rw [hsecond])]
      exact ⟨congrArg (· ++ [Dependency.of setting.tree path]) hxy.dependencies, h⟩
    | @miss c d hmiss =>
      have hlooked : InUnison kind (s.looked setting path request)
          (t.looked (setting.only kind) path request) := by
        refine ⟨h.gives, h.steady, h.otherSteady, ?_, h.calls⟩
        rw [State.looked, State.looked, hfirst, hsecond]
        exact hmiss
      cases hread : setting.tree.read path with
      | error error =>
        have hunread : (setting.tree.read path).toOption = none := by rw [hread]; rfl
        have hotherUnread : ((setting.only kind).tree.read path).toOption = none := hunread
        rw [render_of_unreadable hpath (by rw [hfirst]) hunread,
          render_of_unreadable hother (by rw [hsecond]) hotherUnread]
        exact ⟨rfl, hlooked⟩
      | ok source =>
        exact render_inUnison_of_reads hbelow hkind henabled h hlooked
          ⟨hpath, by rw [hfirst], hread⟩ ⟨hother, by rw [hsecond], hread⟩

end Components

/-- At every depth the two settings render in unison. -/
theorem rendersInUnison {setting : Setting} {kind : SegmentKind} (hkind : kind ≠ .template)
    (henabled : setting.options.isEnabled kind = true) (depth : Nat) :
    RendersInUnison setting kind depth :=
  forall_depth_of_below (fun _ hbelow ↦ rendersInUnison_of_below hbelow hkind henabled) depth

end ComponentMarkup.Component

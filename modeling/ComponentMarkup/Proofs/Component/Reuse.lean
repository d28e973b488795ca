import ComponentMarkup.Proofs.Component.Exits
import ComponentMarkup.Proofs.FileTree.Names

/-!
# Rendering with a cache

Entries are read and put in while the components around them are being rendered. What makes this
harmless is a property of entries with two sides: an entry that has it and is fresh shows the
outcome of every asking that it may be used for, and an entry that is put in for an asking has it.
Under such a property every rendering that is asked for shows its outcome, and all entries keep the
property.

Whether only outputs are compared or dependencies as well is left open: results are compared through
an observation.
-/

namespace ComponentMarkup.Component

/-- A comparison of results that sees the output. What is put together from results that look the
same looks the same. -/
structure IsObservation (looks : Rendered → Rendered → Prop) : Prop where
  output : ∀ {a b : Rendered}, looks a b → a.output = b.output
  combine : ∀ {as bs : List Rendered}, List.Forall₂ looks as bs →
    ∀ (output : Text) (own last : List Dependency),
      looks ⟨output, own ++ as.flatMap Rendered.dependencies ++ last⟩
        ⟨output, own ++ bs.flatMap Rendered.dependencies ++ last⟩

/-- Results with the same output. -/
def Rendered.SameOutput (a b : Rendered) : Prop := a.output = b.output

theorem isObservation_sameOutput : IsObservation Rendered.SameOutput :=
  ⟨id, fun _ _ _ _ ↦ rfl⟩

theorem isObservation_eq : IsObservation Eq where
  output h := by rw [h]
  combine h _ _ _ := by rw [List.forall₂_eq_eq_eq.le _ _ h]

namespace IsObservation

variable {looks : Rendered → Rendered → Prop} (h : IsObservation looks)

include h in
theorem refl (a : Rendered) : looks a a := by
  simpa using h.combine (List.Forall₂.nil (R := looks)) a.output a.dependencies []

include h in
theorem outputsOf_eq (visits : List Visit) {as bs : List Rendered}
    (hall : List.Forall₂ looks as bs) : outputsOf visits as = outputsOf visits bs := by
  induction hall generalizing visits with
  | nil => rfl
  | cons hab _ ih =>
    cases visits with
    | nil => rfl
    | cons visit rest =>
      simp only [outputsOf, List.zipWith_cons_cons, List.cons.injEq, Prod.mk.injEq, true_and]
      exact ⟨h.output hab, ih rest⟩

end IsObservation

/-- A property of entries that reuse keeps, for the askings in `among`. -/
structure KeptByReuse (setting : Setting) (host : Host) (policy : Cache.Policy)
    (looks : Rendered → Rendered → Prop) (among : Asking → Prop)
    (kept : Path → Cache.Entry → Prop) : Prop where
  /-- What is asked for on the way is among the askings. -/
  closed : ∀ {depth request child}, among ⟨depth + 1, request⟩ →
    child ∈ childRequests setting host request → among ⟨depth, child⟩
  /-- A fresh entry shows the outcome of every asking that it is found for. -/
  use : ∀ {key path entry asking}, kept key entry → among asking →
    asking.request.path? setting = some path → Path.same key path = true →
    entry.isFresh setting.tree policy (setting.tree.stamp path)
      (Cache.fingerprint asking.request.data asking.request.invocation) = true →
    looks (resultOf setting path entry) (asking.outcome setting host)
  /-- An entry that is put in for an asking has the property. -/
  make : ∀ {path asking draft output dependencies}, among asking →
    draft? setting host asking.request = some draft → draft.path = path →
    looks ⟨output, dependencies ++ [Dependency.of setting.tree path]⟩
      (asking.outcome setting host) →
    kept path (entryOf setting path asking.request output dependencies)

section Rendering

variable {setting : Setting} {host : Host} {policy : Cache.Policy}
  {looks : Rendered → Rendered → Prop} {among : Asking → Prop}
  {kept : Path → Cache.Entry → Prop}

/-- A state whose host always gives what the host gives, and in which all entries have a
property. -/
structure State.Keeps (host : Host) (policy : Cache.Policy) (kept : Path → Cache.Entry → Prop)
    (state : State) : Prop where
  gives : state.host.now = host.now
  steady : state.host.IsSteady
  policy_eq : state.cache.policy = policy
  entries : ∀ entry ∈ state.cache.entries, kept entry.1 entry.2

section Keeps

variable {state : State} {request : Request} {path : Path} {source : Text}

theorem State.Keeps.props_eq (h : state.Keeps host policy kept) (tree : FileTree) (path : Path) :
    state.host.props tree path = host.props tree path := by
  rw [← Host.props_now, h.gives, Host.props_now]

theorem State.Keeps.draft_eq (h : state.Keeps host policy kept) (path : Path) (data : Data)
    (invocation : Attributes) (source : Text) :
    draft setting state.host path data invocation source =
      draft setting host path data invocation source := by
  rw [← draft_now, h.gives, draft_now]

/-- What is rendered of a component file is the draft that the request has. -/
theorem State.Keeps.draft?_eq (h : state.Keeps host policy kept)
    (hreads : Reads setting state request path source) :
    draft? setting host request = some (drafted setting state request path source) := by
  rw [draft?_of_read host hreads.named hreads.read, drafted, h.draft_eq]

theorem State.Keeps.looked (h : state.Keeps host policy kept) (path : Path) (request : Request) :
    (state.looked setting path request).Keeps host policy kept :=
  ⟨h.gives, h.steady, Cache.policy_get.trans h.policy_eq,
    fun entry hentry ↦ h.entries entry (Cache.mem_get hentry)⟩

theorem State.Keeps.begun (h : state.Keeps host policy kept) (request : Request) (path : Path)
    (source : Text) : (begun setting state request path source).Keeps host policy kept := by
  have hadvance := h.steady.advance setting.tree path
  have hlooked : (state.looked setting path request).Keeps host policy kept := h.looked path request
  exact ⟨hadvance.2.trans h.gives, hadvance.1, hlooked.policy_eq, hlooked.entries⟩

/-- Behind a component file the property is kept if it is kept behind its children and the entry
that is put in has it. -/
theorem State.Keeps.rendered {child? : Option Renderer}
    (hafter : (childResults setting child? state request path source).2.Keeps host policy kept)
    (hmade : kept path (madeEntry setting child? state request path source)) :
    (rendered setting child? state request path source).Keeps host policy kept := by
  refine ⟨hafter.gives, hafter.steady, hafter.policy_eq, ?_⟩
  intro entry hentry
  rcases Cache.mem_set hentry with hentry | rfl
  · exact hafter.entries entry hentry
  · exact hmade

end Keeps

/-- A way to render children shows outcomes and keeps the property, for these requests. -/
def Shows (host : Host) (policy : Cache.Policy) (looks : Rendered → Rendered → Prop)
    (kept : Path → Cache.Entry → Prop) (requests : List Request) :
    Option Renderer → Option (Request → Rendered) → Prop
  | none, none => True
  | some child, some outcome => ∀ request ∈ requests, ∀ state, state.Keeps host policy kept →
    looks (child state request).1 (outcome request) ∧
      (child state request).2.Keeps host policy kept
  | _, _ => False

theorem renderTag_looks (hlooks : IsObservation looks) {child? : Option Renderer}
    {outcome? : Option (Request → Rendered)} {draft : Draft}
    (hshows : Shows host policy looks kept (draft.requests setting host) child? outcome?)
    {visit : Visit} (hvisit : visit ∈ draft.visits) {state : State}
    (hstate : state.Keeps host policy kept) :
    looks (renderTag setting child? draft.page visit.file state visit.tag).1
        (outcomeTag setting host outcome? draft.page visit) ∧
      (renderTag setting child? draft.page visit.file state visit.tag).2.Keeps host policy kept := by
  unfold renderTag outcomeTag
  cases hpath : resolve? setting.tree setting.options.extension draft.page.dir visit.file with
  | none => exact ⟨hlooks.refl _, hstate⟩
  | some path =>
    match child?, outcome?, hshows with
    | none, none, _ => exact ⟨hlooks.refl _, hstate⟩
    | some child, some outcome, hshows =>
      have hmem : childRequest setting host draft.page visit.tag path ∈
          draft.requests setting host := by
        rw [Draft.requests, List.mem_filterMap]
        exact ⟨visit, hvisit, by rw [hpath, Option.map_some]⟩
      have := hshows _ hmem state hstate
      simpa only [childRequest, hstate.props_eq] using this

theorem renderVisits_looks (hlooks : IsObservation looks) {child? : Option Renderer}
    {outcome? : Option (Request → Rendered)} {draft : Draft}
    (hshows : Shows host policy looks kept (draft.requests setting host) child? outcome?)
    {visits : List Visit} (hvisits : ∀ visit ∈ visits, visit ∈ draft.visits) {state : State}
    (hstate : state.Keeps host policy kept) :
    List.Forall₂ looks (renderVisits setting child? draft.page visits state).1
        (visits.map (outcomeTag setting host outcome? draft.page)) ∧
      (renderVisits setting child? draft.page visits state).2.Keeps host policy kept := by
  induction visits generalizing state with
  | nil => exact ⟨.nil, hstate⟩
  | cons visit rest ih =>
    have hfirst := renderTag_looks hlooks hshows (hvisits visit List.mem_cons_self) hstate
    have hrest := ih (fun v hv ↦ hvisits v (List.mem_cons_of_mem _ hv)) hfirst.2
    exact ⟨.cons hfirst.1 hrest.1, hrest.2⟩

/-- One component, given that its children show their outcomes. -/
theorem renderWith_looks (hlooks : IsObservation looks)
    (hkept : KeptByReuse setting host policy looks among kept) {depth : Nat} {request : Request}
    (hamong : among ⟨depth, request⟩)
    (hshows : Shows host policy looks kept (childRequests setting host request)
      (childRenderer setting depth) (childOutcome setting host depth))
    {state : State} (hstate : state.Keeps host policy kept) :
    looks (renderWith setting (childRenderer setting depth) state request).1
        (outcome setting host depth request) ∧
      (renderWith setting (childRenderer setting depth) state request).2.Keeps host policy kept := by
  have hexit := exit_renderWith setting (childRenderer setting depth) state request
  generalize renderWith setting (childRenderer setting depth) state request = ending at hexit ⊢
  cases hexit with
  | missing hpath =>
    rw [outcome_of_draft?_eq_none (draft?_of_path?_eq_none host hpath)]
    exact ⟨hlooks.refl _, hstate⟩
  | @reused path entry hpath hhit =>
    obtain ⟨key, hmem, hsame, hfresh⟩ := Cache.get_eq_some hhit
    rw [hstate.policy_eq] at hfresh
    exact ⟨hkept.use (hstate.entries _ hmem) hamong hpath hsame hfresh, hstate⟩
  | @unreadable path hpath _ hread =>
    rw [outcome_of_draft?_eq_none (draft?_of_unreadable host hpath hread)]
    exact ⟨hlooks.refl _, hstate.looked path request⟩
  | @rendered path source h =>
    let draft := drafted setting state request path source
    let children := childResults setting (childRenderer setting depth) state request path source
    have hdraft : draft? setting host request = some draft := hstate.draft?_eq h
    rw [childRequests, hdraft, Option.map_some, Option.getD_some] at hshows
    obtain ⟨hresults, hafter⟩ : List.Forall₂ looks children.1
          (draft.visits.map (outcomeTag setting host (childOutcome setting host depth)
            draft.page)) ∧ children.2.Keeps host policy kept :=
      renderVisits_looks hlooks hshows (fun _ hv ↦ hv) (hstate.begun request path source)
    let output := draft.output setting (outputsOf draft.visits children.1)
    let dependencies := draft.own ++ children.1.flatMap Rendered.dependencies
    have hresult : looks ⟨output, dependencies ++ [Dependency.of setting.tree path]⟩
        (outcome setting host depth request) := by
      rw [outcome_of_draft? hdraft, Draft.finish, ← hlooks.outputsOf_eq draft.visits hresults]
      exact hlooks.combine hresults output draft.own [Dependency.of setting.tree path]
    let asking : Asking := ⟨depth, request⟩
    have hmade : kept path (entryOf setting path asking.request output dependencies) :=
      hkept.make hamong hdraft rfl hresult
    exact ⟨hresult, hafter.rendered hmade⟩

/-- Under a property that reuse keeps, renderings show outcomes, and the property is kept. -/
theorem render_looks (hlooks : IsObservation looks)
    (hkept : KeptByReuse setting host policy looks among kept) {depth : Nat} {request : Request}
    (hamong : among ⟨depth, request⟩) {state : State} (hstate : state.Keeps host policy kept) :
    looks (render setting depth state request).1 (outcome setting host depth request) ∧
      (render setting depth state request).2.Keeps host policy kept := by
  induction depth generalizing request state with
  | zero => exact renderWith_looks hlooks hkept hamong trivial hstate
  | succ depth ih =>
    refine renderWith_looks hlooks hkept hamong ?_ hstate
    intro child hchild state hstate
    exact ih (hkept.closed hamong hchild) hstate

end Rendering

end ComponentMarkup.Component

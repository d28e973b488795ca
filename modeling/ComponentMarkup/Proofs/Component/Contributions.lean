import ComponentMarkup.Proofs.Component.Narrowed
import ComponentMarkup.Proofs.Component.Reuse
import ComponentMarkup.Proofs.Component.Settled
import ComponentMarkup.Proofs.Text.Solid

/-!
# What renderings of one kind are made of

Where scripts are written and nothing else, or styles and nothing else, the output of a component is
what calls returned: first what its children contribute, one child for each text of a tag in the
order in which the tags were found, and then the call of the component itself. A component whose
entry in the cache is used contributes what the asking contributed that the entry was made for.

The outputs of calls have no white space at their ends, so trimming an output takes nothing away.
Every entry of the cache is accounted for by calls of the same run.
-/

namespace ComponentMarkup

open Text

/-! ## Scripts and styles are written without white space around them -/

theorem Script.isTrim_render (input : Script.Input) : IsTrim (Script.render input) := by
  have hopening : IsSolid "<script".toList := by constructor <;> simp [isBlank]
  have hclosing : IsSolid "</script>".toList := by constructor <;> simp [isBlank]
  unfold Script.render
  dsimp only
  split
  · exact Or.inl rfl
  · rw [List.append_assoc "<script".toList]
    exact (hopening.append hclosing _).isTrim

theorem Style.isTrim_render (renderer : Style.Renderer) (input : Style.Input) :
    IsTrim (renderer.render input) := by
  have hopening : IsSolid "<style".toList := by constructor <;> simp [isBlank]
  have hclosing : IsSolid "</style>".toList := by constructor <;> simp [isBlank]
  have hscript : IsTrim (renderer.renderScript input) := by
    unfold Renderer.renderScript
    split
    · exact Script.isTrim_render _
    · split
      · exact Or.inl rfl
      · exact Script.isTrim_render _
  have htag : IsTrim (renderer.renderTag input) := by
    unfold Renderer.renderTag
    split
    · exact Or.inl rfl
    · rw [List.append_assoc "<style".toList]
      exact (hopening.append hclosing _).isTrim
  unfold Renderer.render
  split
  · exact hscript
  · exact htag

namespace Component

section Kinds

variable {setting : Setting} {kind : SegmentKind}

theorem isTrim_ownCall (hkind : kind ≠ .template) (host : Host) (path : Path) (data : Data)
    (source : Text) : IsTrim (ownCall setting host path data source kind).output := by
  cases kind with
  | template => exact absurd rfl hkind
  | script => exact Script.isTrim_render _
  | style => exact Style.isTrim_render _ _

/-- A component comes to the outputs of its children and to what its own call returns. -/
theorem output_draft (hkind : kind ≠ .template) (honly : setting.WritesOnly kind) (host : Host)
    (path : Path) (data : Data) (invocation : Attributes) (source : Text) (outputs : Dict Text) :
    (draft setting host path data invocation source).output setting outputs =
      trim (outputs.flatMap Prod.snd ++ (ownCall setting host path data source kind).output) := by
  have henabled (other : SegmentKind) :
      setting.options.isEnabled other = true ↔ other = kind := honly other
  have htemplate : setting.options.isEnabled .template ≠ true :=
    fun h ↦ hkind ((henabled .template).1 h).symm
  rw [Draft.output, if_neg htemplate]
  cases kind with
  | template => exact absurd rfl hkind
  | script =>
    have hscript : setting.options.isEnabled .script = true := (henabled _).2 rfl
    have hstyle : ¬setting.options.isEnabled .style = true := by simp [henabled]
    simp only [draft, scriptText, if_pos hscript, styleText, if_neg hstyle, List.append_nil]
    rfl
  | style =>
    have hscript : ¬setting.options.isEnabled .script = true := by simp [henabled]
    have hstyle : setting.options.isEnabled .style = true := (henabled _).2 rfl
    simp only [draft, scriptText, if_neg hscript, styleText, if_pos hstyle, List.append_nil]
    rfl

end Kinds

/-! ## Contributions -/

/-- What the tags in the page of a component ask for, one level further down. -/
def Asking.below (setting : Setting) (host : Host) (asking : Asking) : List Asking :=
  match asking.depth with
  | 0 => []
  | depth + 1 => (childRequests setting host asking.request).map (Asking.mk depth)

section Contributions

variable (setting : Setting) (host : Host) (kind : SegmentKind) (among : Asking → Prop)

/-- What an asking contributes to an output of one kind: the calls that the output is made of. -/
inductive Contributes : Asking → List Call → Prop
  | missing {asking : Asking} (hdraft : draft? setting host asking.request = none) :
      Contributes asking []
  | rendered {asking : Asking} {path : Path} {source : Text} {parts : List (List Call)}
      (hpath : asking.request.path? setting = some path)
      (hread : setting.tree.read path = .ok source)
      (hbelow : List.Forall₂ Contributes (asking.below setting host) parts) :
      Contributes asking
        (parts.flatten ++ [ownCall setting host path asking.request.data source kind])
  | reused {asking earlier : Asking} {calls : List Call} (hamong : among earlier)
      (hpath : earlier.request.path? setting = asking.request.path? setting)
      (hinput : earlier.request.fingerprint = asking.request.fingerprint)
      (h : Contributes earlier calls) : Contributes asking calls

/-- The output for askings is what calls of a run returned that the askings contribute. -/
def Accounted (ran : List Call) (askings : List Asking) (output : Text) : Prop :=
  ∃ parts : List (List Call),
    List.Forall₂ (Contributes setting host kind among) askings parts ∧ parts.flatten ⊆ ran ∧
      output = parts.flatten.flatMap Call.output ∧ IsTrim output

/-- An entry is accounted for by an asking that it was made for. -/
def EntryAccounted (ran : List Call) (path : Path) (entry : Cache.Entry) : Prop :=
  ∃ asking, among asking ∧ asking.request.path? setting = some path ∧
    asking.request.fingerprint = entry.fingerprint ∧
    Accounted setting host kind among ran [asking] entry.output

/-- Renderings at a depth are accounted for by the calls of a run, as long as the run makes the
calls that they make. -/
def RendersAccounted (ran : List Call) (depth : Nat) : Prop :=
  ∀ (request : Request) (policy : Cache.Policy) (state : State), among ⟨depth, request⟩ →
    state.Keeps host policy (EntryAccounted setting host kind among ran) →
    (render setting depth state request).2.callsOf kind ⊆ ran →
      Accounted setting host kind among ran [⟨depth, request⟩]
          (render setting depth state request).1.output ∧
        (render setting depth state request).2.Keeps host policy
          (EntryAccounted setting host kind among ran)

end Contributions

section Accounted

variable {setting : Setting} {host : Host} {kind : SegmentKind} {among : Asking → Prop}
  {ran : List Call}

theorem accounted_nil : Accounted setting host kind among ran [] [] :=
  ⟨[], .nil, List.nil_subset _, rfl, Or.inl rfl⟩

theorem Accounted.append {askings others : List Asking} {output rest : Text}
    (hfirst : Accounted setting host kind among ran askings output)
    (hsecond : Accounted setting host kind among ran others rest) :
    Accounted setting host kind among ran (askings ++ others) (output ++ rest) := by
  obtain ⟨parts, hparts, hran, houtput, htrim⟩ := hfirst
  obtain ⟨more, hmore, hmoreRan, hrest, hrestTrim⟩ := hsecond
  refine ⟨parts ++ more, List.rel_append hparts hmore, ?_, ?_, htrim.append hrestTrim⟩
  · rw [List.flatten_append]
    exact List.append_subset.2 ⟨hran, hmoreRan⟩
  · rw [List.flatten_append, List.flatMap_append, houtput, hrest]

theorem Accounted.isTrim {askings : List Asking} {output : Text}
    (h : Accounted setting host kind among ran askings output) : IsTrim output := by
  obtain ⟨_, _, _, _, htrim⟩ := h
  exact htrim

theorem Accounted.exists_calls {asking : Asking} {output : Text}
    (h : Accounted setting host kind among ran [asking] output) :
    ∃ calls, Contributes setting host kind among asking calls ∧ calls ⊆ ran ∧
      output = calls.flatMap Call.output := by
  obtain ⟨parts, hparts, hran, houtput, _⟩ := h
  rw [List.forall₂_cons_left_iff] at hparts
  obtain ⟨calls, others, hcalls, hothers, rfl⟩ := hparts
  obtain rfl := List.forall₂_nil_left_iff.1 hothers
  rw [List.flatten_singleton] at hran houtput
  exact ⟨calls, hcalls, hran, houtput⟩

/-- A component that cannot be found or read contributes nothing. -/
theorem accounted_missing {asking : Asking} (hdraft : draft? setting host asking.request = none) :
    Accounted setting host kind among ran [asking] [] :=
  ⟨[[]], .cons (.missing hdraft) .nil, List.nil_subset _, rfl, Or.inl rfl⟩

/-- What accounts for an asking accounts for one that takes its entry. -/
theorem Accounted.reuse {asking earlier : Asking} {output : Text}
    (h : Accounted setting host kind among ran [earlier] output) (hamong : among earlier)
    (hpath : earlier.request.path? setting = asking.request.path? setting)
    (hinput : earlier.request.fingerprint = asking.request.fingerprint) :
    Accounted setting host kind among ran [asking] output := by
  obtain ⟨parts, hparts, hran, houtput, htrim⟩ := h
  cases hparts with
  | cons hcalls hrest =>
    exact ⟨_, .cons (.reused hamong hpath hinput hcalls) hrest, hran, houtput, htrim⟩

/-- What accounts for the askings below a component accounts for it together with its own call. -/
theorem Accounted.rendered (hkind : kind ≠ .template) {asking : Asking} {path : Path}
    {source output : Text} (h : Accounted setting host kind among ran (asking.below setting host) output)
    (hpath : asking.request.path? setting = some path) (hread : setting.tree.read path = .ok source)
    (hown : ownCall setting host path asking.request.data source kind ∈ ran) :
    Accounted setting host kind among ran [asking]
      (output ++ (ownCall setting host path asking.request.data source kind).output) := by
  obtain ⟨parts, hparts, hran, houtput, htrim⟩ := h
  refine ⟨[_], .cons (.rendered hpath hread hparts) .nil, ?_, ?_,
    htrim.append (isTrim_ownCall hkind host path asking.request.data source)⟩
  · rw [List.flatten_singleton]
    exact List.append_subset.2 ⟨hran, List.cons_subset.2 ⟨hown, List.nil_subset _⟩⟩
  · rw [List.flatten_singleton, List.flatMap_append, List.flatMap_singleton, houtput]

end Accounted

/-! ## A rendering is accounted for -/

section Visits

variable {setting : Setting} {host : Host} {child? : Option Renderer} {page : Page}

/-- The outputs of visits under the texts of their tags are the outputs in their order. -/
theorem flatMap_outputsOf_renderVisits (visits : List Visit) (state : State) :
    (outputsOf visits (renderVisits setting child? page visits state).1).flatMap Prod.snd =
      (renderVisits setting child? page visits state).1.flatMap Rendered.output := by
  induction visits generalizing state with
  | nil => rfl
  | cons visit rest ih => exact congrArg _ (ih _)

/-- The entry of a component has the outputs of its children and what its own call returned. -/
theorem output_madeEntry {kind : SegmentKind} (hkind : kind ≠ .template)
    (honly : setting.WritesOnly kind) (state : State) (request : Request) (path : Path)
    (source : Text) :
    (madeEntry setting child? state request path source).output =
      trim ((childResults setting child? state request path source).1.flatMap Rendered.output ++
        (ownCall setting state.host path request.data source kind).output) := by
  let d := drafted setting state request path source
  let results := (childResults setting child? state request path source).1
  have houtputs : (outputsOf d.visits results).flatMap Prod.snd = results.flatMap Rendered.output :=
    flatMap_outputsOf_renderVisits d.visits _
  calc
    (madeEntry setting child? state request path source).output =
        d.output setting (outputsOf d.visits results) := rfl
    _ = trim ((outputsOf d.visits results).flatMap Prod.snd ++
          (ownCall setting state.host path request.data source kind).output) :=
      output_draft hkind honly state.host path request.data request.invocation source _
    _ = _ := by rw [houtputs]

variable (setting host) in
/-- What the tag of a page asks for where components may be nested `depth` deep below the page. -/
def visitAsking? (depth : Nat) (page : Page) (visit : Visit) : Option Asking :=
  match depth with
  | 0 => none
  | depth + 1 =>
    (resolve? setting.tree setting.options.extension page.dir visit.file).map fun path ↦
      ⟨depth, childRequest setting host page visit.tag path⟩

/-- The visits of a draft ask for what is below its component. -/
theorem Asking.below_eq {asking : Asking} {draft : Draft}
    (hdraft : draft? setting host asking.request = some draft) :
    asking.below setting host =
      draft.visits.filterMap (visitAsking? setting host asking.depth draft.page) := by
  unfold Asking.below visitAsking?
  cases asking.depth with
  | zero => simp
  | succ depth =>
    simp only [childRequests, hdraft, Option.map_some, Option.getD_some, Draft.requests,
      List.map_filterMap, Option.map_map]
    rfl

end Visits

theorem State.callsOf_subset {s t : State} (h : s.calls <+: t.calls) (kind : SegmentKind) :
    s.callsOf kind ⊆ t.callsOf kind :=
  (h.filter _).subset

theorem State.Keeps.ownCall_eq {setting : Setting} {host : Host} {policy : Cache.Policy}
    {kept : Path → Cache.Entry → Prop} {state : State} (h : state.Keeps host policy kept)
    (path : Path) (data : Data) (source : Text) (kind : SegmentKind) :
    ownCall setting state.host path data source kind = ownCall setting host path data source kind := by
  rw [← ownCall_now, h.gives, ownCall_now]

section Rendering

variable {setting : Setting} {host : Host} {kind : SegmentKind} {among : Asking → Prop}
  {ran : List Call} {depth : Nat} {policy : Cache.Policy}

section Below

variable (hbelow : ∀ n, depth = n + 1 → RendersAccounted setting host kind among ran n)

include hbelow

theorem renderTag_accounted (page : Page) (visit : Visit) {state : State}
    (hamong : ∀ asking ∈ visitAsking? setting host depth page visit, among asking)
    (hstate : state.Keeps host policy (EntryAccounted setting host kind among ran)) :
    let found := renderTag setting (childRenderer setting depth) page visit.file state visit.tag
    found.2.callsOf kind ⊆ ran →
      Accounted setting host kind among ran (visitAsking? setting host depth page visit).toList
          found.1.output ∧
        found.2.Keeps host policy (EntryAccounted setting host kind among ran) := by
  unfold renderTag visitAsking? at *
  cases depth with
  | zero =>
    cases resolve? setting.tree setting.options.extension page.dir visit.file with
    | none => exact fun _ ↦ ⟨accounted_nil, hstate⟩
    | some path => exact fun _ ↦ ⟨accounted_nil, hstate⟩
  | succ n =>
    cases hpath : resolve? setting.tree setting.options.extension page.dir visit.file with
    | none => exact fun _ ↦ ⟨accounted_nil, hstate⟩
    | some path =>
      have hchild : among ⟨n, childRequest setting host page visit.tag path⟩ :=
        hamong _ (by rw [hpath]; rfl)
      have hprops : state.host.props setting.tree path = host.props setting.tree path :=
        hstate.props_eq setting.tree path
      simp only [hprops]
      exact hbelow n rfl _ policy state hchild hstate

theorem renderVisits_accounted (page : Page) (visits : List Visit) {state : State}
    (hamong : ∀ asking ∈ visits.filterMap (visitAsking? setting host depth page), among asking)
    (hstate : state.Keeps host policy (EntryAccounted setting host kind among ran)) :
    let found := renderVisits setting (childRenderer setting depth) page visits state
    found.2.callsOf kind ⊆ ran →
      Accounted setting host kind among ran
          (visits.filterMap (visitAsking? setting host depth page))
          (found.1.flatMap Rendered.output) ∧
        found.2.Keeps host policy (EntryAccounted setting host kind among ran) := by
  induction visits generalizing state with
  | nil => exact fun _ ↦ ⟨accounted_nil, hstate⟩
  | cons visit rest ih =>
    intro found hran
    have hsplit : (visit :: rest).filterMap (visitAsking? setting host depth page) =
        (visitAsking? setting host depth page visit).toList ++
          rest.filterMap (visitAsking? setting host depth page) := by
      rw [List.filterMap_cons]
      cases visitAsking? setting host depth page visit <;> rfl
    rw [hsplit] at hamong ⊢
    obtain ⟨hself, hothers⟩ := List.forall_mem_append.1 hamong
    let first := renderTag setting (childRenderer setting depth) page visit.file state visit.tag
    have hgrows : first.2.calls <+: found.2.calls :=
      calls_prefix_renderVisits (calls_prefix_childRenderer setting depth) page rest first.2
    have hfirst := renderTag_accounted hbelow page visit
      (fun asking h ↦ hself asking (Option.mem_toList.2 h)) hstate
      (List.Subset.trans (State.callsOf_subset hgrows kind) hran)
    have hrest := ih hothers hfirst.2 hran
    exact ⟨hfirst.1.append hrest.1, hrest.2⟩

end Below

/-- One component, given that the components below it are accounted for. -/
theorem rendersAccounted_of_below (hkind : kind ≠ .template) (honly : setting.WritesOnly kind)
    (hclosed : ∀ asking, among asking → ∀ next ∈ asking.below setting host, among next)
    (hbelow : ∀ n, depth = n + 1 → RendersAccounted setting host kind among ran n) :
    RendersAccounted setting host kind among ran depth := by
  intro request policy state hamong hstate
  have hexit := exit_render setting state request depth
  generalize render setting depth state request = ending at hexit ⊢
  intro hran
  cases hexit with
  | missing hpath =>
    exact ⟨accounted_missing (draft?_of_path?_eq_none host hpath), hstate⟩
  | @reused path entry hpath hhit =>
    obtain ⟨key, hmem, hsame, hfresh⟩ := Cache.get_eq_some hhit
    obtain ⟨earlier, hearlier, hkey, hinput, haccounted⟩ := hstate.entries _ hmem
    have heq : key = path :=
      (isCanonical_of_path? hkey).eq_of_same (isCanonical_of_path? hpath) hsame
    have hplace : earlier.request.path? setting = request.path? setting := by
      rw [hkey, hpath, heq]
    have hfingerprint : earlier.request.fingerprint = request.fingerprint :=
      hinput.trans (isFresh_iff.1 hfresh).1.1.2
    exact ⟨haccounted.reuse hearlier hplace hfingerprint, hstate⟩
  | @unreadable path hpath hmiss hread =>
    exact ⟨accounted_missing (draft?_of_unreadable host hpath hread), hstate.looked path request⟩
  | @rendered path source h =>
    let d := drafted setting state request path source
    let own := ownCall setting host path request.data source kind
    have hdraft : draft? setting host request = some d := hstate.draft?_eq h
    have hvisits : Asking.below setting host ⟨depth, request⟩ =
        d.visits.filterMap (visitAsking? setting host depth d.page) := Asking.below_eq hdraft
    have henabled : setting.options.isEnabled kind = true := (honly kind).2 rfl
    rw [callsOf_rendered hkind henabled, hstate.ownCall_eq] at hran
    obtain ⟨hranChildren, hranOwn⟩ := List.append_subset.1 hran
    have hnext : ∀ asking ∈ d.visits.filterMap (visitAsking? setting host depth d.page),
        among asking := by
      rw [← hvisits]
      exact hclosed _ hamong
    let children := childResults setting (childRenderer setting depth) state request path source
    obtain ⟨hchildren, hafter⟩ :
        Accounted setting host kind among ran
            (d.visits.filterMap (visitAsking? setting host depth d.page))
            (children.1.flatMap Rendered.output) ∧
          children.2.Keeps host policy (EntryAccounted setting host kind among ran) :=
      renderVisits_accounted hbelow d.page d.visits hnext (hstate.begun request path source)
        hranChildren
    rw [← hvisits] at hchildren
    have hself : Accounted setting host kind among ran [⟨depth, request⟩]
        (madeEntry setting (childRenderer setting depth) state request path source).output := by
      have hboth : Accounted setting host kind among ran [⟨depth, request⟩]
          (children.1.flatMap Rendered.output ++ own.output) :=
        hchildren.rendered hkind h.named h.read (List.cons_subset.1 hranOwn).1
      rw [output_madeEntry hkind honly, hstate.ownCall_eq, hboth.isTrim.trim_eq]
      exact hboth
    exact ⟨hself, hafter.rendered ⟨⟨depth, request⟩, hamong, h.named, rfl, hself⟩⟩

end Rendering

/-- At every depth renderings are accounted for, where what is asked for on the way is among the
askings. -/
theorem rendersAccounted {setting : Setting} {host : Host} {kind : SegmentKind}
    {among : Asking → Prop} (hkind : kind ≠ .template) (honly : setting.WritesOnly kind)
    (hclosed : ∀ asking, among asking → ∀ next ∈ asking.below setting host, among next)
    (ran : List Call) (depth : Nat) : RendersAccounted setting host kind among ran depth :=
  forall_depth_of_below
    (fun _ hbelow ↦ rendersAccounted_of_below hkind honly hclosed hbelow) depth

end Component

end ComponentMarkup

import ComponentMarkup.Proofs.Cache.InStep
import ComponentMarkup.Proofs.Component.Reuse
import ComponentMarkup.Proofs.Component.SamePage
import ComponentMarkup.Proofs.Component.Settled

/-!
# Renderings in step

Two trees match if every component that is asked for in the first one has a twin in the second one
that reads the same, and the references in twins lead to twins again. Where a reference leads to
nothing in the first tree, it may lead to a blank component in the second one, which comes out
empty.

Renderings of twins then go on in step: they have the same output, and the caches correspond entry
by entry, apart from what the second one has for blank components.
-/

namespace ComponentMarkup

theorem Path.IsCanonical.same_eq_decide {p q : Path} (hp : p.IsCanonical) (hq : q.IsCanonical) :
    Path.same p q = decide (p = q) := by
  by_cases h : p = q
  · simp [h, Path.same]
  · have hsame : Path.same p q = false := Bool.eq_false_iff.2 fun hs ↦ h (hp.eq_of_same hq hs)
    simp [h, hsame]

/-- Where nothing is registered, no call changes the host. -/
theorem Host.IsBare.advance_eq {host : Host} (h : host.IsBare) (tree : FileTree) (path : Path) :
    host.advance tree path = host := by
  have hnone : host.registered = [] := h
  rw [Host.advance, hnone, List.map_nil, ← hnone]

namespace Component

/-- Whom a reference leads to in two trees: to twins, to nothing in both, or to nothing in the first
one and a blank component in the second one. -/
inductive Meets (twin : Path → Path → Prop) (blank : Path → Bool) : Option Path → Option Path → Prop
  | none : Meets twin blank none none
  | twin {p q : Path} (h : twin p q) : Meets twin blank (some p) (some q)
  | blank {q : Path} (h : blank q = true) : Meets twin blank none (some q)

/-- The draft of the component in a file, if the file can be read. -/
def readDraft? (setting : Setting) (host : Host) (path : Path) (data : Data)
    (invocation : Attributes) : Option Draft :=
  (setting.tree.read path).toOption.map (draft setting host path data invocation)

/-- What is asked for in the first tree has its twin in the second one. -/
structure Matching (a b : FileTree) (options : Options) (host : Host) (among : Asking → Prop)
    (twin : Path → Path → Prop) (blank : Path → Bool) : Prop where
  bare : host.IsBare
  /-- What is asked for on the way is among the askings. -/
  closed : ∀ {depth request child}, among ⟨depth + 1, request⟩ →
    child ∈ childRequests ⟨a, options⟩ host request → among ⟨depth, child⟩
  canonical : ∀ {p q}, twin p q → p.IsCanonical ∧ q.IsCanonical
  unique : ∀ {p q x y}, twin p q → twin x y → (x = p ↔ y = q)
  blank_congr : ∀ {p q}, Path.same p q = true → blank p = blank q
  twin_not_blank : ∀ {p q}, twin p q → blank q = false
  props : ∀ {p q}, twin p q → host.props a p = host.props b q
  /-- Twins can be read to the same page, or neither can be read. -/
  drafts : ∀ {asking p q}, among asking → asking.request.path? ⟨a, options⟩ = some p → twin p q →
    Option.Rel Draft.SamePage
      (readDraft? ⟨a, options⟩ host p asking.request.data asking.request.invocation)
      (readDraft? ⟨b, options⟩ host q asking.request.data asking.request.invocation)
  /-- References in twins lead to twins. -/
  visits : ∀ {asking draft q visit}, among asking →
    draft? ⟨a, options⟩ host asking.request = some draft → twin draft.path q →
    visit ∈ draft.visits →
    Meets twin blank (resolve? a options.extension (Path.parent draft.path) visit.file)
      (resolve? b options.extension (Path.parent q) visit.file)
  /-- A blank component comes out empty. -/
  empty : ∀ {q} (data invocation), blank q = true → q.IsCanonical →
    ∃ draft ∈ readDraft? ⟨b, options⟩ host q data invocation, draft.IsEmpty

/-! ## States in step -/

/-- An entry for a file in which nothing is stale. -/
structure IsCurrentEntry (tree : FileTree) (keyed : Path × Cache.Entry) : Prop where
  modified : keyed.2.modified = tree.stamp keyed.1
  dependencies : AllCurrent tree keyed.2.dependencies

theorem IsCurrentEntry.isFresh_eq {tree : FileTree} {keyed : Path × Cache.Entry}
    (h : IsCurrentEntry tree keyed) (policy : Cache.Policy) (fingerprint : Text) :
    keyed.2.isFresh tree policy (tree.stamp keyed.1) fingerprint =
      (decide (keyed.2.fingerprint = fingerprint) && !policy.isInstant) := by
  rw [Bool.eq_iff_iff, isFresh_iff]
  simp [h.modified, h.dependencies]

/-- Entries of twins with the same output. -/
structure EntryTwin (a b : FileTree) (twin : Path → Path → Prop) (x y : Path × Cache.Entry) :
    Prop where
  keys : twin x.1 y.1
  fingerprint : x.2.fingerprint = y.2.fingerprint
  output : x.2.output = y.2.output
  current : IsCurrentEntry a x
  otherCurrent : IsCurrentEntry b y

/-- States with the same host and with caches in step. -/
structure State.InStep (a b : FileTree) (host : Host) (twin : Path → Path → Prop)
    (blank : Path → Bool) (s t : State) : Prop where
  host_eq : s.host = host
  otherHost_eq : t.host = host
  cache : Cache.InStep (EntryTwin a b twin) blank s.cache t.cache

/-- The entry that a rendering makes has no stale dependency. -/
theorem isCurrentEntry_madeEntry {setting : Setting} {state : State} {request : Request}
    {path : Path} {source : Text} (h : Reads setting state request path source) (depth : Nat) :
    IsCurrentEntry setting.tree
      (path, madeEntry setting (childRenderer setting depth) state request path source) := by
  have hsettled := settled_render setting depth state request
  rw [render_of_reads h depth] at hsettled
  exact ⟨rfl, fun dependency hmem ↦ hsettled.current dependency (List.mem_append_left _ hmem)⟩

section InStep

variable {a b : FileTree} {options : Options} {host : Host} {among : Asking → Prop}
  {twin : Path → Path → Prop} {blank : Path → Bool}
  (hmatch : Matching a b options host among twin blank) {s t : State} {r other : Request}
  {p q : Path} {depth : Nat}

include hmatch

theorem Matching.sameKeys (htwin : twin p q) : Cache.SameKeys (EntryTwin a b twin) p q := by
  intro x y hxy
  obtain ⟨hp, hq⟩ := hmatch.canonical htwin
  obtain ⟨hx, hy⟩ := hmatch.canonical hxy.keys
  rw [hx.same_eq_decide hp, hy.same_eq_decide hq]
  exact decide_eq_decide.2 (hmatch.unique htwin hxy.keys)

/-- Lookups for twins with the same input find entries of twins, or nothing in both caches. -/
theorem State.InStep.lookup (hstate : State.InStep a b host twin blank s t) (htwin : twin p q)
    (hinput : r.fingerprint = other.fingerprint) :
    Cache.LooksUp (EntryTwin a b twin) blank s.cache t.cache (s.lookup ⟨a, options⟩ p r)
      (t.lookup ⟨b, options⟩ q other) := by
  rw [State.lookup, State.lookup, ← hinput]
  refine hstate.cache.get hmatch.blank_congr (hmatch.sameKeys htwin)
    (hmatch.twin_not_blank htwin) ?_
  intro x y hxy hkey
  obtain rfl : x.1 = p :=
    (hmatch.canonical hxy.keys).1.eq_of_same (hmatch.canonical htwin).1 hkey
  obtain rfl : y.1 = q := (hmatch.unique htwin hxy.keys).1 rfl
  rw [hxy.current.isFresh_eq, hxy.otherCurrent.isFresh_eq, hxy.fingerprint]

/-- A blank component comes out empty, and the first tree sees nothing of it. -/
theorem render_blank (hstate : State.InStep a b host twin blank s t)
    (hpath : r.path? ⟨b, options⟩ = some q) (hblank : blank q = true) (depth : Nat) :
    (render ⟨b, options⟩ depth t r).1.output = [] ∧
      State.InStep a b host twin blank s (render ⟨b, options⟩ depth t r).2 := by
  obtain ⟨hhit, hlooked⟩ : (∀ entry ∈ (t.lookup ⟨b, options⟩ q r).1, entry.output = []) ∧
      Cache.InStep (EntryTwin a b twin) blank s.cache (t.lookup ⟨b, options⟩ q r).2 :=
    hstate.cache.get_blank hmatch.blank_congr hblank
  cases hlookup : (t.lookup ⟨b, options⟩ q r).1 with
  | some entry =>
    rw [render_of_lookup hpath hlookup]
    exact ⟨hhit entry hlookup, hstate⟩
  | none =>
    obtain ⟨draft, hdraft, hempty⟩ := hmatch.empty r.data r.invocation hblank
      (isCanonical_of_path? hpath)
    rw [Option.mem_def, readDraft?, Option.map_eq_some_iff] at hdraft
    obtain ⟨source, hsource, hdraft⟩ := hdraft
    have hread : b.read q = .ok source := by
      cases hread : b.read q with
      | error error => simp [hread, Except.toOption] at hsource
      | ok text => simpa [hread, Except.toOption] using hsource
    have hdrafted : drafted ⟨b, options⟩ t r q source = draft := by
      rw [drafted, hstate.otherHost_eq, hdraft]
    have hchildren : childResults ⟨b, options⟩ (childRenderer ⟨b, options⟩ depth) t r q source =
        ([], begun ⟨b, options⟩ t r q source) := by
      rw [childResults, hdrafted, hempty.visits_eq]
      rfl
    have hmade : (madeEntry ⟨b, options⟩ (childRenderer ⟨b, options⟩ depth) t r q source).output =
        [] := by
      rw [madeEntry, hdrafted, hchildren, hempty.visits_eq]
      exact hempty.output_eq _
    rw [render_of_reads ⟨hpath, hlookup, hread⟩ depth]
    refine ⟨hmade, hstate.host_eq, ?_, ?_⟩
    · show (childResults _ _ _ _ _ _).2.host = host
      rw [hchildren]
      show t.host.advance b q = host
      rw [hstate.otherHost_eq, hmatch.bare.advance_eq]
    · show Cache.InStep _ _ s.cache ((childResults _ _ _ _ _ _).2.cache.set q _)
      rw [hchildren]
      exact hlooked.set_blank hmatch.blank_congr hblank hmade

end InStep

/-! ## Components in step -/

/-- Twins with the same input, asked for in states in step, come out the same, and the states
afterwards are in step. -/
def RendersInStep (a b : FileTree) (options : Options) (host : Host) (among : Asking → Prop)
    (twin : Path → Path → Prop) (blank : Path → Bool) (depth : Nat) : Prop :=
  ∀ {r other : Request} {p q : Path} {s t : State}, among ⟨depth, r⟩ →
    r.path? ⟨a, options⟩ = some p → other.path? ⟨b, options⟩ = some q → twin p q →
    r.data = other.data → r.invocation = other.invocation →
    State.InStep a b host twin blank s t →
    (render ⟨a, options⟩ depth s r).1.output = (render ⟨b, options⟩ depth t other).1.output ∧
      State.InStep a b host twin blank (render ⟨a, options⟩ depth s r).2
        (render ⟨b, options⟩ depth t other).2

section Components

variable {a b : FileTree} {options : Options} {host : Host} {among : Asking → Prop}
  {twin : Path → Path → Prop} {blank : Path → Bool}
  (hmatch : Matching a b options host among twin blank) {depth : Nat}
  (hbelow : ∀ n, depth = n + 1 → RendersInStep a b options host among twin blank n)

include hmatch hbelow

/-- The children of a tag on twin pages. -/
theorem renderTag_inStep {r : Request} {d e : Draft} (hamong : among ⟨depth, r⟩)
    (hdraft : draft? ⟨a, options⟩ host r = some d) (htwin : twin d.path e.path)
    (hpage : Draft.SamePage d e) {visit : Visit} (hvisit : visit ∈ d.visits) {s t : State}
    (hstate : State.InStep a b host twin blank s t) :
    let first := renderTag ⟨a, options⟩ (childRenderer ⟨a, options⟩ depth) d.page visit.file s
      visit.tag
    let second := renderTag ⟨b, options⟩ (childRenderer ⟨b, options⟩ depth) e.page visit.file t
      visit.tag
    first.1.output = second.1.output ∧ State.InStep a b host twin blank first.2 second.2 := by
  have hmeets := hmatch.visits hamong hdraft htwin hvisit
  unfold renderTag
  dsimp only [Draft.page]
  generalize hp : resolve? a options.extension (Path.parent d.path) visit.file = p? at hmeets ⊢
  generalize hq : resolve? b options.extension (Path.parent e.path) visit.file = q? at hmeets ⊢
  cases hmeets with
  | none => exact ⟨rfl, hstate⟩
  | @blank q hblank =>
    cases depth with
    | zero => exact ⟨rfl, hstate⟩
    | succ n =>
      have hself (data : Data) (invocation : Attributes) :
          Request.path? ⟨b, options⟩ ⟨Path.parent e.path, q, data, invocation⟩ = some q :=
        resolve?_self (isCanonical_of_resolve? hq) (isFile_of_resolve? hq) _
      obtain ⟨hempty, hafter⟩ := render_blank hmatch hstate (hself _ _) hblank n
      exact ⟨hempty.symm, hafter⟩
  | @twin p q hchild =>
    cases depth with
    | zero => exact ⟨rfl, hstate⟩
    | succ n =>
      have hmem := childRequest_mem_childRequests hdraft hvisit hp
      have hprops : s.host.props a p = t.host.props b q := by
        rw [hstate.host_eq, hstate.otherHost_eq, hmatch.props hchild]
      have hdata : childData (s.host.props a p) d.invocation d.data
            (Attributes.parse visit.tag.attributes) visit.tag.innerText =
          childData (t.host.props b q) e.invocation e.data
            (Attributes.parse visit.tag.attributes) visit.tag.innerText := by
        rw [hprops, hpage.invocation, hpage.data]
      have hasked := hmatch.closed hamong hmem
      rw [← hstate.host_eq] at hasked
      exact hbelow n rfl hasked
        (resolve?_self (isCanonical_of_resolve? hp) (isFile_of_resolve? hp) _)
        (resolve?_self (isCanonical_of_resolve? hq) (isFile_of_resolve? hq) _)
        hchild hdata rfl hstate

theorem renderVisits_inStep {r : Request} {d e : Draft} (hamong : among ⟨depth, r⟩)
    (hdraft : draft? ⟨a, options⟩ host r = some d) (htwin : twin d.path e.path)
    (hpage : Draft.SamePage d e) {visits : List Visit} (hvisits : ∀ visit ∈ visits, visit ∈ d.visits)
    {s t : State} (hstate : State.InStep a b host twin blank s t) :
    let first := renderVisits ⟨a, options⟩ (childRenderer ⟨a, options⟩ depth) d.page visits s
    let second := renderVisits ⟨b, options⟩ (childRenderer ⟨b, options⟩ depth) e.page visits t
    List.Forall₂ Rendered.SameOutput first.1 second.1 ∧
      State.InStep a b host twin blank first.2 second.2 := by
  induction visits generalizing s t with
  | nil => exact ⟨.nil, hstate⟩
  | cons visit rest ih =>
    obtain ⟨houtput, hafter⟩ := renderTag_inStep hmatch hbelow hamong hdraft htwin hpage
      (hvisits visit List.mem_cons_self) hstate
    obtain ⟨hothers, hlast⟩ := ih (fun v hv ↦ hvisits v (List.mem_cons_of_mem _ hv)) hafter
    exact ⟨.cons houtput hothers, hlast⟩

/-- The children of twins whose files are rendered. -/
theorem childResults_inStep {r other : Request} {p q : Path} {source text : Text} {s t : State}
    (hamong : among ⟨depth, r⟩) (htwin : twin p q) (hreads : Reads ⟨a, options⟩ s r p source)
    (hpage : Draft.SamePage (drafted ⟨a, options⟩ s r p source)
      (drafted ⟨b, options⟩ t other q text))
    (hlooked : State.InStep a b host twin blank (s.looked ⟨a, options⟩ p r)
      (t.looked ⟨b, options⟩ q other)) :
    let first := childResults ⟨a, options⟩ (childRenderer ⟨a, options⟩ depth) s r p source
    let second := childResults ⟨b, options⟩ (childRenderer ⟨b, options⟩ depth) t other q text
    List.Forall₂ Rendered.SameOutput first.1 second.1 ∧
      State.InStep a b host twin blank first.2 second.2 := by
  have hshost : s.host = host := hlooked.host_eq
  have hthost : t.host = host := hlooked.otherHost_eq
  have hdraft : draft? ⟨a, options⟩ host r = some (drafted ⟨a, options⟩ s r p source) := by
    rw [← hshost]
    exact draft?_of_read s.host hreads.named hreads.read
  have hbegun : State.InStep a b host twin blank (begun ⟨a, options⟩ s r p source)
      (begun ⟨b, options⟩ t other q text) := by
    refine ⟨?_, ?_, hlooked.cache⟩
    · show s.host.advance a p = host
      rw [hshost, hmatch.bare.advance_eq]
    · show t.host.advance b q = host
      rw [hthost, hmatch.bare.advance_eq]
  unfold childResults
  dsimp only
  rw [← hpage.visits_eq]
  exact renderVisits_inStep hmatch hbelow (e := drafted ⟨b, options⟩ t other q text) hamong hdraft
    htwin hpage (fun _ hv ↦ hv) hbegun

/-- Twins whose files are rendered. -/
theorem render_inStep_of_reads {r other : Request} {p q : Path} {source text : Text} {s t : State}
    (hamong : among ⟨depth, r⟩) (htwin : twin p q) (hinput : r.fingerprint = other.fingerprint)
    (hfirst : Reads ⟨a, options⟩ s r p source) (hsecond : Reads ⟨b, options⟩ t other q text)
    (hpage : Draft.SamePage (drafted ⟨a, options⟩ s r p source)
      (drafted ⟨b, options⟩ t other q text))
    (hlooked : State.InStep a b host twin blank (s.looked ⟨a, options⟩ p r)
      (t.looked ⟨b, options⟩ q other)) :
    (render ⟨a, options⟩ depth s r).1.output = (render ⟨b, options⟩ depth t other).1.output ∧
      State.InStep a b host twin blank (render ⟨a, options⟩ depth s r).2
        (render ⟨b, options⟩ depth t other).2 := by
  obtain ⟨hresults, hafter⟩ := childResults_inStep hmatch hbelow hamong htwin hfirst hpage hlooked
  have houtput : (madeEntry ⟨a, options⟩ (childRenderer ⟨a, options⟩ depth) s r p source).output =
      (madeEntry ⟨b, options⟩ (childRenderer ⟨b, options⟩ depth) t other q text).output := by
    show Draft.output _ _ _ = Draft.output _ _ _
    rw [hpage.output_eq (a := ⟨a, options⟩) (b := ⟨b, options⟩) rfl, isObservation_sameOutput.outputsOf_eq _ hresults,
      hpage.visits_eq]
  have hmade : EntryTwin a b twin
      (p, madeEntry ⟨a, options⟩ (childRenderer ⟨a, options⟩ depth) s r p source)
      (q, madeEntry ⟨b, options⟩ (childRenderer ⟨b, options⟩ depth) t other q text) :=
    ⟨htwin, hinput, houtput, isCurrentEntry_madeEntry hfirst depth,
      isCurrentEntry_madeEntry hsecond depth⟩
  rw [render_of_reads hfirst depth, render_of_reads hsecond depth]
  exact ⟨houtput, hafter.host_eq, hafter.otherHost_eq,
    hafter.cache.set (hmatch.sameKeys htwin) (hmatch.twin_not_blank htwin) hmade⟩

/-- One component, given that the components below it are rendered in step. -/
theorem rendersInStep_of_below : RendersInStep a b options host among twin blank depth := by
  intro r other p q s t hamong hp hq htwin hdata hinvocation hstate
  have hinput : r.fingerprint = other.fingerprint := by
    rw [Request.fingerprint, hdata, hinvocation, Request.fingerprint]
  have hlookup := State.InStep.lookup hmatch hstate htwin hinput
  generalize hfirst : s.lookup ⟨a, options⟩ p r = first at hlookup
  generalize hsecond : t.lookup ⟨b, options⟩ q other = second at hlookup
  cases hlookup with
  | @hit x y hxy =>
    rw [render_of_lookup hp (by rw [hfirst]), render_of_lookup hq (by rw [hsecond])]
    exact ⟨hxy.output, hstate⟩
  | @miss c d hmiss =>
    have hlooked : State.InStep a b host twin blank (s.looked ⟨a, options⟩ p r)
        (t.looked ⟨b, options⟩ q other) := by
      refine ⟨hstate.host_eq, hstate.otherHost_eq, ?_⟩
      rw [State.looked, State.looked, hfirst, hsecond]
      exact hmiss
    have hdrafts := hmatch.drafts hamong hp htwin
    rw [readDraft?, readDraft?] at hdrafts
    cases hread : a.read p with
    | error error =>
      cases hother : b.read q with
      | error _ =>
        rw [render_of_unreadable hp (by rw [hfirst]) (by simp [hread, Except.toOption]),
          render_of_unreadable hq (by rw [hsecond]) (by simp [hother, Except.toOption])]
        exact ⟨rfl, hlooked⟩
      | ok _ => simp [hread, hother, Except.toOption] at hdrafts
    | ok source =>
      cases hother : b.read q with
      | error _ => simp [hread, hother, Except.toOption] at hdrafts
      | ok text =>
        have hpage : Draft.SamePage (drafted ⟨a, options⟩ s r p source)
            (drafted ⟨b, options⟩ t other q text) := by
          rw [drafted, drafted, hstate.host_eq, hstate.otherHost_eq, ← hdata, ← hinvocation]
          simpa [hread, hother, Except.toOption] using hdrafts
        have hreads : Reads ⟨a, options⟩ s r p source := ⟨hp, by rw [hfirst], hread⟩
        have hotherReads : Reads ⟨b, options⟩ t other q text := ⟨hq, by rw [hsecond], hother⟩
        exact render_inStep_of_reads hmatch hbelow hamong htwin hinput hreads hotherReads hpage hlooked

end Components

/-- Under a matching, twins are rendered in step at every depth. -/
theorem rendersInStep {a b : FileTree} {options : Options} {host : Host} {among : Asking → Prop}
    {twin : Path → Path → Prop} {blank : Path → Bool}
    (hmatch : Matching a b options host among twin blank) (depth : Nat) :
    RendersInStep a b options host among twin blank depth :=
  forall_depth_of_below (p := RendersInStep a b options host among twin blank)
    (fun _ hbelow ↦ rendersInStep_of_below hmatch hbelow) depth

end Component

end ComponentMarkup

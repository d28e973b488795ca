import ComponentMarkup.Proofs.Component.Repeats
import ComponentMarkup.Site

/-!
# Calls of a site

A call asks for its components one after the other, each with all that it asks for in turn. If
every component shows its outcome, the call shows the outcome of its target. A first call does so if
what it asks for again comes out the same.
-/

namespace ComponentMarkup.Site

open Component

/-- What a call asks for at the top. -/
def requests (site : Site) : Target → Data → List Request
  | .one reference, data => [⟨site.root, reference, data, []⟩]
  | .many references, _ => references.map fun reference ↦ ⟨site.root, reference, [], []⟩

/-- All that a call asks for. -/
def asked (site : Site) (tree : FileTree) (target : Target) (data : Data) : List Asking :=
  (site.requests target data).flatMap
    (Component.asked (site.setting tree) site.host site.options.maxDepth)

theorem asked_one (site : Site) (tree : FileTree) (reference : Path) (data : Data) :
    site.asked tree (.one reference) data =
      Component.asked (site.setting tree) site.host site.options.maxDepth
        ⟨site.root, reference, data, []⟩ :=
  List.flatMap_singleton _ _

/-- A call asks for what it asks for at the top. -/
theorem mem_asked_of_requests (site : Site) (tree : FileTree) {target : Target} {data : Data}
    {request : Request} (h : request ∈ site.requests target data) :
    ⟨site.options.maxDepth, request⟩ ∈ site.asked tree target data :=
  List.mem_flatMap.2 ⟨request, h, self_mem_asked _ _ _ _⟩

/-- A call asks for what it asks for on the way. -/
theorem mem_asked_of_childRequests (site : Site) {tree : FileTree} {target : Target} {data : Data}
    {depth : Nat} {request child : Request} (h : ⟨depth + 1, request⟩ ∈ site.asked tree target data)
    (hchild : child ∈ childRequests (site.setting tree) site.host request) :
    ⟨depth, child⟩ ∈ site.asked tree target data := by
  obtain ⟨top, htop, h⟩ := List.mem_flatMap.1 h
  exact List.mem_flatMap.2 ⟨top, htop, Component.mem_asked_of_childRequests _ _ h hchild⟩

/-- What a component of the site comes to if nothing is taken from a cache. -/
def componentOutcome (site : Site) (tree : FileTree) (reference : Path) (data : Data) : Text :=
  (Component.outcome (site.setting tree) site.host site.options.maxDepth
    ⟨site.root, reference, data, []⟩).output

/-- What a target comes to if nothing is taken from a cache. -/
def outcome (site : Site) (tree : FileTree) : Target → Data → Text
  | .one reference, data => site.componentOutcome tree reference data
  | .many references, _ =>
    references.flatMap fun reference ↦ site.componentOutcome tree reference [] ++ ['\n']

/-- Makes calls one after the other and gives their outputs. -/
def serve (site : Site) (tree : FileTree) : List (Target × Data) → List Text
  | [] => []
  | (target, data) :: rest =>
    let (output, _, site) := site.render tree target data
    output :: serve site tree rest

section Rendering

variable {site : Site} {tree : FileTree} {policy : Cache.Policy}
  {looks : Rendered → Rendered → Prop} {among : Asking → Prop}
  {kept : Path → Cache.Entry → Prop}

theorem renderComponent_shows (hlooks : IsObservation looks)
    (hkept : KeptByReuse (site.setting tree) site.host policy looks among kept)
    {reference : Path} {data : Data}
    (hamong : among ⟨site.options.maxDepth, ⟨site.root, reference, data, []⟩⟩) {state : State}
    (hstate : state.Keeps site.host policy kept) :
    (site.renderComponent tree reference data state).1 =
        site.componentOutcome tree reference data ∧
      (site.renderComponent tree reference data state).2.Keeps site.host policy kept := by
  have hrender := render_looks hlooks hkept hamong hstate
  exact ⟨hlooks.output hrender.1, hrender.2⟩

theorem renderMany_shows (hlooks : IsObservation looks)
    (hkept : KeptByReuse (site.setting tree) site.host policy looks among kept)
    {references : List Path}
    (hamong : ∀ reference ∈ references,
      among ⟨site.options.maxDepth, ⟨site.root, reference, [], []⟩⟩) {state : State}
    (hstate : state.Keeps site.host policy kept) :
    (site.renderMany tree references state).1 =
        references.flatMap (fun reference ↦ site.componentOutcome tree reference [] ++ ['\n']) ∧
      (site.renderMany tree references state).2.Keeps site.host policy kept := by
  induction references generalizing state with
  | nil => exact ⟨rfl, hstate⟩
  | cons reference rest ih =>
    have hfirst := renderComponent_shows hlooks hkept
      (hamong reference List.mem_cons_self) hstate
    have hrest := ih (fun r hr ↦ hamong r (List.mem_cons_of_mem _ hr)) hfirst.2
    refine ⟨?_, hrest.2⟩
    rw [renderMany, List.flatMap_cons, ← hfirst.1, ← hrest.1, List.append_assoc]
    rfl

/-- A call shows the outcome of its target, and the entries keep their property. -/
theorem render_shows (hlooks : IsObservation looks) (hsteady : site.host.IsSteady)
    (hkept : KeptByReuse (site.setting tree) site.host policy looks among kept) {target : Target}
    {data : Data}
    (hamong : ∀ request ∈ site.requests target data, among ⟨site.options.maxDepth, request⟩)
    (hpolicy : site.cache.policy = policy) (hentries : ∀ entry ∈ site.cache.entries,
      kept entry.1 entry.2) :
    (site.render tree target data).1 = site.outcome tree target data ∧
      (site.render tree target data).2.2.host.now = site.host.now ∧
      (site.render tree target data).2.2.cache.policy = policy ∧
      ∀ entry ∈ (site.render tree target data).2.2.cache.entries, kept entry.1 entry.2 := by
  have hstart : site.start.Keeps site.host policy kept := ⟨rfl, hsteady, hpolicy, hentries⟩
  have htarget : (site.renderTarget tree target data site.start).1 =
        site.outcome tree target data ∧
      (site.renderTarget tree target data site.start).2.Keeps site.host policy kept := by
    cases target with
    | one reference =>
      exact renderComponent_shows hlooks hkept (hamong _ (List.mem_singleton_self _)) hstart
    | many references =>
      apply renderMany_shows hlooks hkept _ hstart
      intro reference hreference
      exact hamong _ (List.mem_map.2 ⟨reference, hreference, rfl⟩)
  exact ⟨htarget.1, htarget.2.gives, htarget.2.policy_eq, htarget.2.entries⟩

end Rendering

section New

variable {tree : FileTree} {root : Path} {options : Options} {host : Host} {target : Target}
  {data : Data}

/-- A first call gives the outcome of its target under any property that reuse keeps. -/
theorem render_new_eq_outcome_of_keptByReuse (hsteady : host.IsSteady)
    {kept : Path → Cache.Entry → Prop}
    (hkept : KeptByReuse ⟨tree, options⟩ host (new root options host).cache.policy
      Rendered.SameOutput (· ∈ (new root options host).asked tree target data) kept) :
    ((new root options host).render tree target data).1 =
      (new root options host).outcome tree target data := by
  let site := new root options host
  have hstart : ∀ request ∈ site.requests target data,
      ⟨site.options.maxDepth, request⟩ ∈ site.asked tree target data :=
    fun _ h ↦ site.mem_asked_of_requests tree h
  have hsteady : site.host.IsSteady := hsteady
  have hkept : KeptByReuse (site.setting tree) site.host site.cache.policy Rendered.SameOutput
      (· ∈ site.asked tree target data) kept := hkept
  have hrender := render_shows isObservation_sameOutput hsteady hkept hstart rfl
    (fun _ h ↦ absurd h List.not_mem_nil)
  exact hrender.1

/-- A first call gives the outcome of its target, if what it asks for again comes out the same. -/
theorem render_new_eq_outcome (hsteady : host.IsSteady)
    (hdigest : DigestsTellApart (inputTexts ((new root options host).asked tree target data)))
    (hagree : RepeatsAgree ⟨tree, options⟩ host ((new root options host).asked tree target data)) :
    ((new root options host).render tree target data).1 =
      (new root options host).outcome tree target data :=
  render_new_eq_outcome_of_keptByReuse hsteady
    (keptByReuse_isEntryOf _ (mem_asked_of_childRequests (new root options host)) hdigest hagree)

/-- Where the component decides the output, a first call gives the outcome of its target, whatever
digests do. -/
theorem render_new_eq_outcome_of_pathsAgree (hsteady : host.IsSteady)
    (hagree : PathsAgree ⟨tree, options⟩ host ((new root options host).asked tree target data)) :
    ((new root options host).render tree target data).1 =
      (new root options host).outcome tree target data :=
  render_new_eq_outcome_of_keptByReuse hsteady
    (keptByReuse_isOutputOf _ (mem_asked_of_childRequests (new root options host)) hagree)

end New

end ComponentMarkup.Site

import ComponentMarkup.Proofs.Component.Contributions
import ComponentMarkup.Proofs.Site.Calls

/-!
# Narrowed sites

A site narrowed to scripts or to styles does all the work of the site: a first call makes the same
calls of that renderer, in the same order and with the same results. What it puts out is what these
calls returned, children before their parents, and nothing of a template and nothing of the other
kind. Only the line breaks behind the components of a list are its own.
-/

namespace ComponentMarkup

open Component

namespace Site

/-- The outputs of the components of a target: one as it is, several each with a line break behind
it. -/
def Target.joined : Target → List Text → Text
  | .one _, outputs => outputs.flatten
  | .many _, outputs => outputs.flatMap (· ++ ['\n'])

section Unison

variable {site : Site} {tree : FileTree} {kind : SegmentKind} (hkind : kind ≠ .template)
  (henabled : site.options.isEnabled kind = true)

include hkind henabled

theorem renderComponent_inUnison (reference : Path) (data : Data) {s t : State}
    (h : InUnison kind s t) :
    InUnison kind (site.renderComponent tree reference data s).2
      ((site.narrow kind).renderComponent tree reference data t).2 := by
  have hrenders : RendersInUnison (site.setting tree) kind site.options.maxDepth :=
    rendersInUnison hkind henabled site.options.maxDepth
  exact (hrenders ⟨site.root, reference, data, []⟩ s t h).2

theorem renderMany_inUnison (references : List Path) {s t : State} (h : InUnison kind s t) :
    InUnison kind (site.renderMany tree references s).2
      ((site.narrow kind).renderMany tree references t).2 := by
  induction references generalizing s t with
  | nil => exact h
  | cons reference rest ih => exact ih (renderComponent_inUnison hkind henabled reference [] h)

theorem renderTarget_inUnison (target : Target) (data : Data) {s t : State}
    (h : InUnison kind s t) :
    InUnison kind (site.renderTarget tree target data s).2
      ((site.narrow kind).renderTarget tree target data t).2 := by
  cases target with
  | one reference => exact renderComponent_inUnison hkind henabled reference data h
  | many references => exact renderMany_inUnison hkind henabled references h

end Unison

theorem calls_prefix_renderMany (site : Site) (tree : FileTree) (references : List Path)
    (state : State) : state.calls <+: (site.renderMany tree references state).2.calls := by
  induction references generalizing state with
  | nil => exact List.prefix_rfl
  | cons reference rest ih =>
    have hfirst : state.calls <+: (site.renderComponent tree reference [] state).2.calls :=
      calls_prefix_render (site.setting tree) site.options.maxDepth state _
    exact hfirst.trans (ih _)

/-- What is asked for below an asking of a call is asked for by the call. -/
theorem mem_asked_of_below (site : Site) {tree : FileTree} {target : Target} {data : Data}
    {asking next : Asking} (h : asking ∈ site.asked tree target data)
    (hnext : next ∈ asking.below (site.setting tree) site.host) :
    next ∈ site.asked tree target data := by
  obtain ⟨depth, request⟩ := asking
  cases depth with
  | zero => exact absurd hnext List.not_mem_nil
  | succ depth =>
    obtain ⟨child, hchild, rfl⟩ := List.mem_map.1 hnext
    exact site.mem_asked_of_childRequests h hchild

section Accounted

variable {site : Site} {tree : FileTree} {kind : SegmentKind} {among : Asking → Prop}
  {ran : List Call} {policy : Cache.Policy}
  (hrenders : RendersAccounted (site.setting tree) site.host kind among ran site.options.maxDepth)

include hrenders

theorem renderComponent_accounted {reference : Path} {data : Data}
    (hamong : among ⟨site.options.maxDepth, ⟨site.root, reference, data, []⟩⟩) {state : State}
    (hstate : state.Keeps site.host policy
      (EntryAccounted (site.setting tree) site.host kind among ran))
    (hran : (site.renderComponent tree reference data state).2.callsOf kind ⊆ ran) :
    (∃ calls, Contributes (site.setting tree) site.host kind among
          ⟨site.options.maxDepth, ⟨site.root, reference, data, []⟩⟩ calls ∧
        calls ⊆ ran ∧
        (site.renderComponent tree reference data state).1 = calls.flatMap Call.output) ∧
      (site.renderComponent tree reference data state).2.Keeps site.host policy
        (EntryAccounted (site.setting tree) site.host kind among ran) := by
  have hrender := hrenders ⟨site.root, reference, data, []⟩ policy state hamong hstate hran
  exact ⟨hrender.1.exists_calls, hrender.2⟩

theorem renderMany_accounted {references : List Path}
    (hamong : ∀ reference ∈ references,
      among ⟨site.options.maxDepth, ⟨site.root, reference, [], []⟩⟩) {state : State}
    (hstate : state.Keeps site.host policy
      (EntryAccounted (site.setting tree) site.host kind among ran))
    (hran : (site.renderMany tree references state).2.callsOf kind ⊆ ran) :
    ∃ parts : List (List Call),
      List.Forall₂ (Contributes (site.setting tree) site.host kind among)
        (references.map fun reference ↦
          ⟨site.options.maxDepth, ⟨site.root, reference, [], []⟩⟩) parts ∧
      parts.flatten ⊆ ran ∧
      (site.renderMany tree references state).1 =
        parts.flatMap fun calls ↦ calls.flatMap Call.output ++ ['\n'] := by
  induction references generalizing state with
  | nil => exact ⟨[], .nil, List.nil_subset _, rfl⟩
  | cons reference rest ih =>
    let first := site.renderComponent tree reference [] state
    obtain ⟨hself, hothers⟩ := List.forall_mem_cons.1 hamong
    have hgrows : first.2.calls <+: (site.renderMany tree (reference :: rest) state).2.calls :=
      calls_prefix_renderMany site tree rest first.2
    have hfirst := renderComponent_accounted hrenders hself hstate
      (List.Subset.trans (State.callsOf_subset hgrows kind) hran)
    obtain ⟨calls, hcalls, hcallsRan, houtput⟩ := hfirst.1
    obtain ⟨parts, hparts, hpartsRan, hrest⟩ := ih hothers hfirst.2 hran
    refine ⟨calls :: parts, .cons hcalls hparts, ?_, ?_⟩
    · rw [List.flatten_cons]
      exact List.append_subset.2 ⟨hcallsRan, hpartsRan⟩
    · rw [List.flatMap_cons, ← hrest, ← houtput, List.append_assoc]
      rfl

/-- The output of a target is put together from what calls returned. -/
theorem renderTarget_accounted {target : Target} {data : Data}
    (hamong : ∀ request ∈ site.requests target data, among ⟨site.options.maxDepth, request⟩)
    {state : State}
    (hstate : state.Keeps site.host policy
      (EntryAccounted (site.setting tree) site.host kind among ran))
    (hran : (site.renderTarget tree target data state).2.callsOf kind ⊆ ran) :
    ∃ parts : List (List Call),
      List.Forall₂ (Contributes (site.setting tree) site.host kind among)
        ((site.requests target data).map (Asking.mk site.options.maxDepth)) parts ∧
      parts.flatten ⊆ ran ∧
      (site.renderTarget tree target data state).1 =
        target.joined (parts.map fun calls ↦ calls.flatMap Call.output) := by
  cases target with
  | one reference =>
    have hone := renderComponent_accounted hrenders (hamong _ (List.mem_singleton_self _)) hstate hran
    obtain ⟨calls, hcalls, hcallsRan, houtput⟩ := hone.1
    refine ⟨[calls], .cons hcalls .nil, ?_, ?_⟩
    · rwa [List.flatten_singleton]
    · rw [Target.joined, List.map_singleton, List.flatten_singleton]
      exact houtput
  | many references =>
    have hmany := renderMany_accounted hrenders
      (fun reference hreference ↦ hamong _ (List.mem_map.2 ⟨reference, hreference, rfl⟩)) hstate hran
    obtain ⟨parts, hparts, hpartsRan, houtput⟩ := hmany
    refine ⟨parts, ?_, hpartsRan, ?_⟩
    · rw [requests, List.map_map]
      exact hparts
    · rw [Target.joined, List.flatMap_map]
      exact houtput

end Accounted

/-- A first call of a site narrowed to scripts or to styles makes the calls of that renderer that
the first call of the site makes. Its output is what calls of that renderer returned that the
components contribute. -/
theorem render_narrow {root : Path} {options : Options} {host : Host} {kind : SegmentKind}
    (hkind : kind ≠ .template) (henabled : options.isEnabled kind = true)
    (hsteady : host.IsSteady) (tree : FileTree) (target : Target) (data : Data) :
    let site := new root options host
    let narrowed := site.narrow kind
    let full := site.render tree target data
    let only := narrowed.render tree target data
    only.2.1.filter (fun call ↦ call.kind = kind) = full.2.1.filter (fun call ↦ call.kind = kind) ∧
      ∃ parts : List (List Call),
        List.Forall₂
          (Contributes (narrowed.setting tree) host kind (· ∈ narrowed.asked tree target data))
          ((narrowed.requests target data).map (Asking.mk options.maxDepth)) parts ∧
        parts.flatten ⊆ only.2.1.filter (fun call ↦ call.kind = kind) ∧
        only.1 = target.joined (parts.map fun calls ↦ calls.flatMap Call.output) := by
  intro site narrowed full only
  have hstart : InUnison kind site.start narrowed.start :=
    ⟨rfl, hsteady, hsteady, ⟨rfl, Or.inr fun _ ↦ rfl, .nil, fun _ h ↦ absurd h List.not_mem_nil⟩, rfl⟩
  have hunison : InUnison kind (site.renderTarget tree target data site.start).2
      (narrowed.renderTarget tree target data narrowed.start).2 :=
    renderTarget_inUnison hkind henabled target data hstart
  constructor
  · exact hunison.calls.symm
  · have hclosed : ∀ asking, asking ∈ narrowed.asked tree target data →
        ∀ next ∈ asking.below (narrowed.setting tree) host, next ∈ narrowed.asked tree target data :=
      fun asking hasking next hnext ↦ narrowed.mem_asked_of_below hasking hnext
    have honly : (narrowed.setting tree).WritesOnly kind :=
      Setting.writesOnly_only (site.setting tree) kind
    have hkeeps : narrowed.start.Keeps host options.cache.policy
        (EntryAccounted (narrowed.setting tree) host kind (· ∈ narrowed.asked tree target data)
          (only.2.1.filter fun call ↦ call.kind = kind)) :=
      ⟨rfl, hsteady, rfl, fun _ h ↦ absurd h List.not_mem_nil⟩
    have hrenders := rendersAccounted hkind honly hclosed
      (only.2.1.filter fun call ↦ call.kind = kind) options.maxDepth
    exact renderTarget_accounted hrenders
      (fun request hrequest ↦ narrowed.mem_asked_of_requests tree hrequest) hkeeps
      (List.Subset.refl _)

/-- A page with two tags of one child; the page and the child have texts, scripts and styles. -/
def scripted : FileTree :=
  ((FileTree.empty.write "/rain/page.rain".toList
      (.text "<template>P<card></card><card></card></template><script>p()</script>".toList)
      (some 1)).write
    "/rain/page.json".toList (.text "\x7b\"components\":[\"card.rain\"]\x7d".toList) (some 1)).write
    "/rain/card.rain".toList
      (.text "<template>C</template><script>c()</script><style>a\x7bb:c\x7d</style>".toList) (some 1)

/-- The output holds the script of the child once, and the script of the page behind it. -/
theorem render_narrow_scripted :
    SegmentKind.script ≠ .template ∧ Options.default.isEnabled .script = true ∧
      Host.default.IsSteady ∧
      let site := new "/rain".toList .default .default
      let narrowed := site.narrow .script
      let target := Target.one "page.rain".toList
      let full := site.render scripted target []
      let only := narrowed.render scripted target []
      only.1 = "<script>c()</script><script>p()</script>".toList ∧
        only.2.1.filter (fun call ↦ call.kind = .script) =
            full.2.1.filter (fun call ↦ call.kind = .script) ∧
          ∃ parts : List (List Call),
            List.Forall₂
              (Contributes (narrowed.setting scripted) Host.default .script
                (· ∈ narrowed.asked scripted target []))
              ((narrowed.requests target []).map (Asking.mk Options.default.maxDepth)) parts ∧
            parts.flatten ⊆ only.2.1.filter (fun call ↦ call.kind = .script) ∧
            only.1 = target.joined (parts.map fun calls ↦ calls.flatMap Call.output) :=
  ⟨by decide, rfl, Host.isSteady_ofExtension _, by decide +kernel,
    render_narrow (by decide) rfl (Host.isSteady_ofExtension _) scripted _ []⟩

/-- A list puts a line break behind a component that cannot be found: no call returned it. -/
theorem render_narrow_missing :
    (∀ kind, Options.default.isEnabled kind = true) ∧ Host.default.IsSteady ∧
    let narrowed := (new "/rain".toList .default .default).narrow .style
    let only := narrowed.render .empty (.many ["missing.rain".toList]) []
    only.1 = ['\n'] ∧ ¬∃ calls, calls ⊆ only.2.1 ∧ only.1 = calls.flatMap Call.output := by
  refine ⟨fun kind ↦ by cases kind <;> rfl, Host.isSteady_ofExtension _, ?_⟩
  intro narrowed only
  have houtput : only.1 = ['\n'] := by decide +kernel
  have hcalls : only.2.1 = [] := by decide +kernel
  refine ⟨houtput, ?_⟩
  rintro ⟨calls, hsubset, hjoined⟩
  rw [hcalls, List.subset_nil] at hsubset
  rw [houtput, hsubset] at hjoined
  exact List.cons_ne_nil _ _ hjoined

end Site

end ComponentMarkup

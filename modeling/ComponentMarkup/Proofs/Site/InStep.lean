import ComponentMarkup.Proofs.Component.InStep
import ComponentMarkup.Proofs.Site.Calls

/-!
# Calls in step in two trees

Where two trees match, a first call gives the same output on both, if what it asks for at the top
meets: whichever roots the two sites have, and whatever their caches keep, as long as no blank
component can crowd out another one.
-/

namespace ComponentMarkup.Site

open Component

/-- A site asks for its components from its root. -/
theorem dir_of_mem_requests {site : Site} {target : Target} {data : Data} {request : Request}
    (h : request ∈ site.requests target data) : request.dir = site.root := by
  cases target with
  | one reference =>
    rw [List.mem_singleton.1 h]
  | many references =>
    obtain ⟨reference, _, rfl⟩ := List.mem_map.1 h
    rfl

section InStep

variable {a b : FileTree} {root other : Path} {options : Options} {host : Host}
  {among : Asking → Prop} {twin : Path → Path → Prop} {blank : Path → Bool}
  (hmatch : Matching a b options host among twin blank)

/-- The same request from another directory. -/
def atRoot (other : Path) (request : Request) : Request := { request with dir := other }

include hmatch

theorem render_inStep_of_meets {request : Request} (hamong : among ⟨options.maxDepth, request⟩)
    (hmeets : Meets twin blank (request.path? ⟨a, options⟩)
      ((atRoot other request).path? ⟨b, options⟩))
    {s t : State} (hstate : State.InStep a b host twin blank s t) :
    let first := Component.render ⟨a, options⟩ options.maxDepth s request
    let second := Component.render ⟨b, options⟩ options.maxDepth t (atRoot other request)
    first.1.output = second.1.output ∧ State.InStep a b host twin blank first.2 second.2 := by
  generalize hp : request.path? ⟨a, options⟩ = p? at hmeets
  generalize hq : (atRoot other request).path? ⟨b, options⟩ = q? at hmeets
  cases hmeets with
  | none =>
    rw [render_of_path?_eq_none hp, render_of_path?_eq_none hq]
    exact ⟨rfl, hstate⟩
  | @blank q hblank =>
    obtain ⟨hempty, hafter⟩ := render_blank hmatch hstate hq hblank options.maxDepth
    rw [render_of_path?_eq_none hp]
    exact ⟨hempty.symm, hafter⟩
  | @twin p q htwin =>
    exact rendersInStep hmatch options.maxDepth hamong hp hq htwin rfl rfl hstate

theorem renderMany_inStep {references : List Path}
    (htop : ∀ reference ∈ references,
      among ⟨options.maxDepth, ⟨root, reference, [], []⟩⟩ ∧
        Meets twin blank (Request.path? ⟨a, options⟩ ⟨root, reference, [], []⟩)
          (Request.path? ⟨b, options⟩ ⟨other, reference, [], []⟩))
    {s t : State} (hstate : State.InStep a b host twin blank s t) :
    ((new root options host).renderMany a references s).1 =
      ((new other options host).renderMany b references t).1 := by
  induction references generalizing s t with
  | nil => rfl
  | cons reference rest ih =>
    obtain ⟨hamong, hmeets⟩ := htop reference List.mem_cons_self
    obtain ⟨houtput, hafter⟩ := render_inStep_of_meets hmatch hamong hmeets hstate
    have hrest := ih (fun r hr ↦ htop r (List.mem_cons_of_mem _ hr)) hafter
    exact congrArg₂ (fun first others ↦ first ++ '\n' :: others) houtput hrest

/-- A first call gives the same output on trees that match. -/
theorem render_new_eq_of_matching
    (hroom : options.cache.policy = .unbounded ∨ ∀ path, blank path = false) {target : Target}
    {data : Data}
    (htop : ∀ request ∈ (new root options host).requests target data,
      among ⟨options.maxDepth, request⟩ ∧
        Meets twin blank (request.path? ⟨a, options⟩)
          ((atRoot other request).path? ⟨b, options⟩)) :
    ((new other options host).render b target data).1 =
      ((new root options host).render a target data).1 := by
  have hstart : State.InStep a b host twin blank (new root options host).start
      (new other options host).start :=
    ⟨rfl, rfl, rfl, hroom, .nil, fun _ h ↦ absurd h List.not_mem_nil⟩
  cases target with
  | one reference =>
    obtain ⟨hamong, hmeets⟩ := htop _ (List.mem_singleton_self _)
    exact (render_inStep_of_meets hmatch hamong hmeets hstart).1.symm
  | many references =>
    exact (renderMany_inStep hmatch
      (fun reference hreference ↦ htop _ (List.mem_map.2 ⟨reference, hreference, rfl⟩)) hstart).symm

end InStep

end ComponentMarkup.Site

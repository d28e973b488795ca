import ComponentMarkup.Proofs.Component.Exits
import ComponentMarkup.Proofs.Component.Footprint

/-!
# What a rendering depends on

However a rendering ends, every file that it depends on has the stamp that was recorded for it, and
the policy of the cache stays.
-/

namespace ComponentMarkup.Component

theorem allCurrent_nil (tree : FileTree) : AllCurrent tree [] :=
  fun _ h ↦ absurd h List.not_mem_nil

theorem AllCurrent.append {tree : FileTree} {a b : List Dependency} (ha : AllCurrent tree a)
    (hb : AllCurrent tree b) : AllCurrent tree (a ++ b) :=
  fun dependency h ↦ (List.mem_append.1 h).elim (ha dependency) (hb dependency)

theorem allCurrent_map_of (tree : FileTree) (paths : List Path) :
    AllCurrent tree (paths.map (Dependency.of tree)) := by
  intro dependency h
  obtain ⟨path, _, rfl⟩ := List.mem_map.1 h
  rfl

/-- An entry is fresh for what it was made for, as long as nothing that it depends on has changed. -/
theorem isFresh_iff {entry : Cache.Entry} {tree : FileTree} {policy : Cache.Policy}
    {modified : FileTree.Stamp} {fingerprint : Text} :
    entry.isFresh tree policy modified fingerprint = true ↔
      ((entry.modified = modified ∧ entry.fingerprint = fingerprint) ∧ policy.isInstant = false) ∧
        AllCurrent tree entry.dependencies := by
  have hall : entry.dependencies.all (Dependency.isCurrent tree) = true ↔
      AllCurrent tree entry.dependencies := by
    simp only [List.all_eq_true, AllCurrent, Dependency.isCurrent, decide_eq_true_eq]
  simp only [Cache.Entry.isFresh, Bool.and_eq_true, decide_eq_true_eq, Bool.not_eq_true', hall]

/-- What is depended on is as it was recorded, and the policy of the cache stays. -/
structure Settled (setting : Setting) (state : State) (dependencies : List Dependency)
    (after : State) : Prop where
  current : AllCurrent setting.tree dependencies
  policy : after.cache.policy = state.cache.policy

section Settled

variable {setting : Setting}

theorem Settled.append {state between after : State} {a b : List Dependency}
    (hfirst : Settled setting state a between) (hsecond : Settled setting between b after) :
    Settled setting state (a ++ b) after :=
  ⟨hfirst.current.append hsecond.current, hsecond.policy.trans hfirst.policy⟩

theorem settled_renderTag {child? : Option Renderer}
    (hchild : ∀ child ∈ child?, ∀ state request,
      Settled setting state (child state request).1.dependencies (child state request).2)
    (page : Page) (file : Path) (state : State) (tag : Tag.Occurrence) :
    Settled setting state (renderTag setting child? page file state tag).1.dependencies
      (renderTag setting child? page file state tag).2 := by
  unfold renderTag
  cases resolve? setting.tree setting.options.extension page.dir file with
  | none => exact ⟨allCurrent_map_of setting.tree [Reference.path setting.tree page.dir file], rfl⟩
  | some path =>
    cases child? with
    | none => exact ⟨allCurrent_nil _, rfl⟩
    | some child => exact hchild child rfl _ _

theorem settled_renderVisits {child? : Option Renderer}
    (hchild : ∀ child ∈ child?, ∀ state request,
      Settled setting state (child state request).1.dependencies (child state request).2)
    (page : Page) (visits : List Visit) (state : State) :
    Settled setting state
      ((renderVisits setting child? page visits state).1.flatMap Rendered.dependencies)
      (renderVisits setting child? page visits state).2 := by
  induction visits generalizing state with
  | nil => exact ⟨allCurrent_nil _, rfl⟩
  | cons visit rest ih =>
    exact (settled_renderTag hchild page visit.file state visit.tag).append (ih _)

theorem settled_renderWith {child? : Option Renderer}
    (hchild : ∀ child ∈ child?, ∀ state request,
      Settled setting state (child state request).1.dependencies (child state request).2)
    (state : State) (request : Request) :
    Settled setting state (renderWith setting child? state request).1.dependencies
      (renderWith setting child? state request).2 := by
  have hself (path : Path) : AllCurrent setting.tree [Dependency.of setting.tree path] :=
    allCurrent_map_of setting.tree [path]
  have hexit := exit_renderWith setting child? state request
  generalize renderWith setting child? state request = ending at hexit ⊢
  cases hexit with
  | missing => exact ⟨allCurrent_nil _, rfl⟩
  | reused hpath hhit =>
    obtain ⟨_, _, _, hfresh⟩ := Cache.get_eq_some hhit
    exact ⟨(isFresh_iff.1 hfresh).2.append (hself _), rfl⟩
  | unreadable => exact ⟨allCurrent_nil _, Cache.policy_get⟩
  | @rendered path source h =>
    let draft := drafted setting state request path source
    have hchildren := settled_renderVisits hchild draft.page draft.visits
      (begun setting state request path source)
    have hown : AllCurrent setting.tree draft.own := allCurrent_map_of setting.tree _
    exact ⟨(hown.append hchildren.current).append (hself path),
      hchildren.policy.trans Cache.policy_get⟩

/-- Every file that a rendering depends on has the stamp that was recorded for it. -/
theorem settled_render (setting : Setting) (depth : Nat) (state : State) (request : Request) :
    Settled setting state (render setting depth state request).1.dependencies
      (render setting depth state request).2 := by
  induction depth generalizing state request with
  | zero => exact settled_renderWith (fun _ h ↦ absurd h (by simp)) state request
  | succ depth ih =>
    apply settled_renderWith
    intro child hchild
    obtain rfl : render setting depth = child := Option.some.inj hchild
    exact ih

end Settled

end ComponentMarkup.Component

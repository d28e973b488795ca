import ComponentMarkup.Proofs.Component.Exits
import ComponentMarkup.Proofs.Component.Resolve

/-!
# Runs

A run is the rendering of one component in one state. A run that renders the file of its component
visits the tags of its page one after the other; the child of a tag that can be found is a run of
its own, one level deeper. What a run depends on is listed in the entry that it stores, and in the
entries of all runs that it is reached from: the dependencies of children are handed upwards at
every level.
-/

namespace ComponentMarkup.Component

/-- The tags of a page, each with the state in which its child is rendered. -/
def visitStates (setting : Setting) (child? : Option Renderer) (page : Page) :
    List Visit → State → List (Visit × State)
  | [], _ => []
  | visit :: rest, state =>
    (visit, state) :: visitStates setting child? page rest
      (renderTag setting child? page visit.file state visit.tag).2

theorem renderVisits_eq_map (setting : Setting) (child? : Option Renderer) (page : Page)
    (visits : List Visit) (state : State) :
    (renderVisits setting child? page visits state).1 =
      (visitStates setting child? page visits state).map fun step ↦
        (renderTag setting child? page step.1.file step.2 step.1.tag).1 := by
  induction visits generalizing state with
  | nil => rfl
  | cons visit rest ih =>
    rw [visitStates, List.map_cons, ← ih]
    rfl

/-- The rendering of a component below which components may be nested `depth` deep. -/
structure Run where
  depth : Nat
  state : State
  request : Request

namespace Run

section Definitions

variable (setting : Setting) (run : Run) (path : Path) (source : Text)

def result : Rendered × State := render setting run.depth run.state run.request

/-- The page of a run that renders a component file. -/
def page : Page := (drafted setting run.state run.request path source).page

/-- The tags that a run visits, each with the state in which its child is rendered. -/
def steps : List (Visit × State) :=
  visitStates setting (childRenderer setting run.depth) (run.page setting path source)
    (drafted setting run.state run.request path source).visits
    (begun setting run.state run.request path source)

/-- A run renders a component file and visits a tag of its page in this state. -/
structure Visits (visit : Visit) (state : State) : Prop where
  reads : Reads setting run.state run.request path source
  mem : (visit, state) ∈ run.steps setting path source

/-- A run puts an entry into the cache: its path, and what it stands for is the result. -/
structure Stores (entry : Cache.Entry) : Prop where
  named : run.request.path? setting = some path
  missed : (run.state.lookup setting path run.request).1 = none
  result : (run.result setting).1 = resultOf setting path entry
  put : ∃ earlier : Cache, (run.result setting).2.cache = earlier.set path entry

/-- The entry that a run puts into the cache lists a dependency. -/
def Lists (dependency : Dependency) : Prop :=
  ∃ path entry, run.Stores setting path entry ∧ dependency ∈ entry.dependencies

end Definitions

/-- A run is reached from another one through tags whose children are rendered. -/
inductive Reaches (setting : Setting) : Run → Run → Prop
  | refl (run : Run) : Reaches setting run run
  | child {ancestor run : Run} {path file : Path} {source : Text} {visit : Visit} {state : State}
      {depth : Nat} (h : Reaches setting ancestor run)
      (hvisit : run.Visits setting path source visit state)
      (hfile : resolve? setting.tree setting.options.extension (run.page setting path source).dir
        visit.file = some file)
      (hdepth : run.depth = depth + 1) :
      Reaches setting ancestor
        ⟨depth, state, childRequest setting state.host (run.page setting path source) visit.tag file⟩

variable {setting : Setting} {run : Run} {path file : Path} {source : Text} {visit : Visit}
  {state : State} {dependency : Dependency} {depth : Nat}

/-- A run that renders a component file stores an entry for it. -/
theorem stores_of_reads (h : Reads setting run.state run.request path source) :
    run.Stores setting path
      (madeEntry setting (childRenderer setting run.depth) run.state run.request path source) := by
  have hrender := render_of_reads h run.depth
  exact ⟨h.named, h.missed, by rw [result, hrender], ⟨_, by rw [result, hrender]; rfl⟩⟩

/-- What a run lists is among what it depends on. -/
theorem Lists.mem_dependencies (h : run.Lists setting dependency) :
    dependency ∈ (run.result setting).1.dependencies := by
  obtain ⟨path, entry, hstores, hmem⟩ := h
  rw [hstores.result]
  exact List.mem_append_left _ hmem

/-- A run lists what the child of a tag depends on. -/
theorem lists_of_visits (h : run.Visits setting path source visit state)
    (hmem : dependency ∈ (renderTag setting (childRenderer setting run.depth)
      (run.page setting path source) visit.file state visit.tag).1.dependencies) :
    run.Lists setting dependency := by
  refine ⟨path, _, stores_of_reads h.reads, ?_⟩
  apply List.mem_append_right
  refine List.mem_flatMap.2 ⟨_, ?_, hmem⟩
  rw [childResults, renderVisits_eq_map]
  exact List.mem_map.2 ⟨(visit, state), h.mem, rfl⟩

/-- The run of the child of a tag. -/
theorem renderTag_eq_result
    (hfile : resolve? setting.tree setting.options.extension (run.page setting path source).dir
      visit.file = some file) (hdepth : run.depth = depth + 1) :
    renderTag setting (childRenderer setting run.depth) (run.page setting path source) visit.file
        state visit.tag =
      Run.result setting ⟨depth, state,
        childRequest setting state.host (run.page setting path source) visit.tag file⟩ := by
  rw [renderTag, hfile, hdepth]
  rfl

/-- What a run lists is listed by all runs that it is reached from. -/
theorem Reaches.lists {ancestor : Run} (h : Reaches setting ancestor run)
    (hlists : run.Lists setting dependency) : ancestor.Lists setting dependency := by
  induction h with
  | refl => exact hlists
  | child _ hvisit hfile hdepth ih =>
    apply ih
    apply lists_of_visits hvisit
    rw [renderTag_eq_result hfile hdepth]
    exact hlists.mem_dependencies

/-- A run whose component is in the cache or can be read depends on it. -/
theorem self_mem_dependencies (hpath : run.request.path? setting = some path)
    (h : (run.state.lookup setting path run.request).1.isSome = true ∨
      (setting.tree.read path).toOption.isSome = true) :
    Dependency.of setting.tree path ∈ (run.result setting).1.dependencies := by
  have hexit := exit_render setting run.state run.request run.depth
  rw [result]
  generalize render setting run.depth run.state run.request = ending at hexit ⊢
  cases hexit with
  | missing hnone => simp [hnone] at hpath
  | reused hother _ =>
    obtain rfl := Option.some.inj (hother.symm.trans hpath)
    exact List.mem_append_right _ (List.mem_singleton_self _)
  | unreadable hother hmiss hread =>
    obtain rfl := Option.some.inj (hother.symm.trans hpath)
    simp [hmiss, hread] at h
  | rendered hother =>
    obtain rfl := Option.some.inj (hother.named.symm.trans hpath)
    exact List.mem_append_right _ (List.mem_singleton_self _)

end Run

/-- What a tag of a page consults with children nested `depth` deep: the place where a child is
missing, or the file of a child that is not cut off, and is in the cache or can be read. -/
inductive Consults (setting : Setting) (depth : Nat) (page : Page) (visit : Visit) (state : State) :
    Dependency → Prop
  | missing (hfile : resolve? setting.tree setting.options.extension page.dir visit.file = none) :
      Consults setting depth page visit state
        (.of setting.tree (Reference.path setting.tree page.dir visit.file))
  | child {file : Path}
      (hfile : resolve? setting.tree setting.options.extension page.dir visit.file = some file)
      (hdepth : depth ≠ 0)
      (hread : (state.lookup setting file
          (childRequest setting state.host page visit.tag file)).1.isSome = true ∨
        (setting.tree.read file).toOption.isSome = true) :
      Consults setting depth page visit state (.of setting.tree file)

namespace Run

variable {setting : Setting} {run : Run} {path : Path} {source : Text} {visit : Visit}
  {state : State} {dependency : Dependency}

/-- A run lists what its tags consult. -/
theorem lists_of_consults (h : run.Visits setting path source visit state)
    (hconsults : Consults setting run.depth (run.page setting path source) visit state
      dependency) : run.Lists setting dependency := by
  apply lists_of_visits h
  cases hconsults with
  | missing hfile =>
    rw [renderTag, hfile]
    exact List.mem_singleton_self _
  | @child file hfile hdepth hread =>
    obtain ⟨depth, hdepth⟩ := Nat.exists_eq_succ_of_ne_zero hdepth
    rw [renderTag_eq_result hfile hdepth]
    have hpath : (childRequest setting state.host (run.page setting path source) visit.tag
        file).path? setting = some file :=
      resolve?_self (isCanonical_of_resolve? hfile) (isFile_of_resolve? hfile) _
    exact self_mem_dependencies hpath hread

end Run

end ComponentMarkup.Component

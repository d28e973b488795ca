import ComponentMarkup.Proofs.Component.Runs
import ComponentMarkup.Proofs.Component.Settled

/-!
# What a run leaves in the cache

A run looks for the entry of its component before everything else and puts a new one in behind
everything else; between the two, the runs of its children do the same. What none of these lookups
and puts breaks is kept by the whole run, and what one of the runs below brings about stays.

A cache that drops nothing for want of room therefore keeps the entry of a path until something
asks for that path. Then it has an entry for what was asked for.
-/

namespace ComponentMarkup.Component

namespace Run

variable (setting : Setting)

/-- The run of the child of a tag, if its component is found. -/
def childOf? (run : Run) (path : Path) (source : Text) (depth : Nat) (step : Visit × State) :
    Option Run :=
  let page := run.page setting path source
  (resolve? setting.tree setting.options.extension page.dir step.1.file).map fun file ↦
    ⟨depth, step.2, childRequest setting step.2.host page step.1.tag file⟩

/-- The runs of the children of a run, from the first to the last. -/
def children (run : Run) : List Run :=
  match run.depth, run.request.path? setting with
  | depth + 1, some path =>
    match (run.state.lookup setting path run.request).1, setting.tree.read path with
    | none, .ok source =>
      (run.steps setting path source).filterMap (run.childOf? setting path source depth)
    | _, _ => []
  | _, _ => []

def belowWithin : (depth : Nat) → Run → List Run
  | 0, _ => []
  | depth + 1, run => (run.children setting).flatMap fun child ↦ child :: belowWithin depth child

/-- The runs of the children of a run, of their children, and so on. -/
def below (run : Run) : List Run := belowWithin setting run.depth run

variable {setting}

theorem mem_children {run child : Run} :
    child ∈ run.children setting ↔ ∃ path source step depth, run.depth = depth + 1 ∧
      Reads setting run.state run.request path source ∧ step ∈ run.steps setting path source ∧
      run.childOf? setting path source depth step = some child := by
  unfold children
  constructor
  · intro h
    split at h
    · rename_i depth path hdepth hpath
      split at h
      · rename_i source hmiss hread
        obtain ⟨step, hstep, hchild⟩ := List.mem_filterMap.1 h
        exact ⟨path, source, step, depth, hdepth, ⟨hpath, hmiss, hread⟩, hstep, hchild⟩
      · simp at h
    · simp at h
  · rintro ⟨path, source, step, depth, hdepth, hreads, hstep, hchild⟩
    simp only [hdepth, hreads.named, hreads.missed, hreads.read]
    exact List.mem_filterMap.2 ⟨step, hstep, hchild⟩

theorem depth_of_mem_children {run child : Run} (h : child ∈ run.children setting) :
    run.depth = child.depth + 1 := by
  obtain ⟨_, _, _, depth, hdepth, _, _, hchild⟩ := mem_children.1 h
  obtain ⟨_, _, rfl⟩ := Option.map_eq_some_iff.1 hchild
  exact hdepth

theorem mem_below {run other : Run} : other ∈ run.below setting ↔
    ∃ child ∈ run.children setting, other = child ∨ other ∈ child.below setting := by
  cases hdepth : run.depth with
  | zero =>
    rw [below, hdepth]
    constructor
    · intro h
      exact absurd h List.not_mem_nil
    · rintro ⟨child, hchild, _⟩
      simp [depth_of_mem_children hchild] at hdepth
  | succ depth =>
    rw [below, hdepth, belowWithin, List.mem_flatMap]
    refine exists_congr fun child ↦ and_congr_right fun hchild ↦ ?_
    have hchildDepth : child.depth = depth := by
      have := depth_of_mem_children hchild
      omega
    rw [List.mem_cons, below, hchildDepth]

/-- What holds of a run if it holds of the runs of its children holds of every run. -/
theorem forall_of_children (setting : Setting) {p : Run → Prop}
    (h : ∀ run : Run, (∀ child ∈ run.children setting, p child) → p run) (run : Run) : p run := by
  induction hdepth : run.depth generalizing run with
  | zero =>
    apply h
    intro child hchild
    simp [depth_of_mem_children hchild] at hdepth
  | succ depth ih =>
    apply h
    intro child hchild
    have := depth_of_mem_children hchild
    exact ih child (by omega)

/-! ## What a run keeps -/

/-- Neither the first lookup of a run nor its last put breaks a property of caches. -/
structure Respects (setting : Setting) (run : Run) (p : Cache → Prop) : Prop where
  get : ∀ path cache, run.request.path? setting = some path → p cache →
    p (cache.get setting.tree path (setting.tree.stamp path) run.request.fingerprint).2
  set : ∀ path cache entry, run.request.path? setting = some path →
    entry.fingerprint = run.request.fingerprint → p cache → p (cache.set path entry)

section Keeping

variable {p : Cache → Prop} {child? : Option Renderer} {page : Page} {visits : List Visit}
  {state : State}

/-- What no visit breaks is kept by all visits. -/
theorem cache_renderVisits_of_visits (hstep : ∀ step ∈ visitStates setting child? page visits state,
      p step.2.cache → p (renderTag setting child? page step.1.file step.2 step.1.tag).2.cache)
    (h : p state.cache) : p (renderVisits setting child? page visits state).2.cache := by
  induction visits generalizing state with
  | nil => exact h
  | cons visit rest ih =>
    rw [visitStates, List.forall_mem_cons] at hstep
    exact ih hstep.2 (hstep.1 h)

/-- What one visit brings about and none breaks is there behind all visits. -/
theorem cache_renderVisits_of_visit (hstep : ∀ step ∈ visitStates setting child? page visits state,
      p step.2.cache → p (renderTag setting child? page step.1.file step.2 step.1.tag).2.cache)
    {step : Visit × State} (hmem : step ∈ visitStates setting child? page visits state)
    (h : p (renderTag setting child? page step.1.file step.2 step.1.tag).2.cache) :
    p (renderVisits setting child? page visits state).2.cache := by
  induction visits generalizing state with
  | nil => simp [visitStates] at hmem
  | cons visit rest ih =>
    rw [visitStates] at hmem hstep
    rw [List.forall_mem_cons] at hstep
    rcases List.mem_cons.1 hmem with rfl | hmem
    · have hrest := cache_renderVisits_of_visits hstep.2 h
      exact hrest
    · exact ih hstep.2 hmem

variable {run : Run} {path : Path} {source : Text} {step : Visit × State}

/-- A visit is the run of a child, or nothing happens. -/
theorem renderTag_cases (hreads : Reads setting run.state run.request path source)
    (hstep : step ∈ run.steps setting path source) :
    (renderTag setting (childRenderer setting run.depth) (run.page setting path source)
        step.1.file step.2 step.1.tag).2 = step.2 ∨
      ∃ child ∈ run.children setting, child.state = step.2 ∧
        (renderTag setting (childRenderer setting run.depth) (run.page setting path source)
          step.1.file step.2 step.1.tag).2 = (child.result setting).2 := by
  cases hfile : resolve? setting.tree setting.options.extension (run.page setting path source).dir
      step.1.file with
  | none =>
    left
    rw [renderTag, hfile]
  | some file =>
    cases hdepth : run.depth with
    | zero =>
      left
      rw [renderTag, hfile]
      rfl
    | succ depth =>
      right
      have hchild : run.childOf? setting path source depth step = some ⟨depth, step.2,
          childRequest setting step.2.host (run.page setting path source) step.1.tag file⟩ := by
        rw [childOf?, hfile, Option.map_some]
      refine ⟨_, mem_children.2 ⟨path, source, step, depth, hdepth, hreads, hstep, hchild⟩, rfl, ?_⟩
      rw [← hdepth, renderTag_eq_result hfile hdepth]

/-- What the runs of the children keep is kept by every visit. -/
theorem cache_renderTag_of_children (hreads : Reads setting run.state run.request path source)
    (hstep : step ∈ run.steps setting path source)
    (hchildren : ∀ child ∈ run.children setting, p child.state.cache →
      p (child.result setting).2.cache)
    (h : p step.2.cache) :
    p (renderTag setting (childRenderer setting run.depth) (run.page setting path source)
      step.1.file step.2 step.1.tag).2.cache := by
  rcases renderTag_cases hreads hstep with heq | ⟨child, hchild, hstate, heq⟩
  · rwa [heq]
  · rw [heq]
    apply hchildren child hchild
    rwa [hstate]

/-- The run of a child is a visit. -/
theorem exists_renderTag_of_mem_children {child : Run} (h : child ∈ run.children setting) :
    ∃ path source step, Reads setting run.state run.request path source ∧
      step ∈ run.steps setting path source ∧
      renderTag setting (childRenderer setting run.depth) (run.page setting path source)
        step.1.file step.2 step.1.tag = child.result setting := by
  obtain ⟨path, source, step, depth, hdepth, hreads, hstep, hchild⟩ := mem_children.1 h
  obtain ⟨file, hfile, rfl⟩ := Option.map_eq_some_iff.1 hchild
  exact ⟨path, source, step, hreads, hstep, renderTag_eq_result hfile hdepth⟩

/-- Behind a file that is rendered the cache is the one behind the children with a new entry. -/
theorem cache_result_of_reads (hreads : Reads setting run.state run.request path source)
    (hset : ∀ cache entry, entry.fingerprint = run.request.fingerprint → p cache →
      p (cache.set path entry))
    (h : p (childResults setting (childRenderer setting run.depth) run.state run.request path
      source).2.cache) : p (run.result setting).2.cache := by
  rw [result, render_of_reads hreads]
  exact hset _ _ rfl h

theorem cache_result (hself : run.Respects setting p)
    (hchildren : ∀ child ∈ run.children setting, p child.state.cache →
      p (child.result setting).2.cache)
    (h : p run.state.cache) : p (run.result setting).2.cache := by
  have hexit := exit_render setting run.state run.request run.depth
  cases hending : run.result setting with
  | mk ending after =>
    rw [result] at hending
    rw [hending] at hexit
    cases hexit with
    | missing => exact h
    | reused => exact h
    | unreadable hpath => exact hself.get _ _ hpath h
    | @rendered path source hreads =>
      have hafter := cache_result_of_reads hreads
        (fun cache entry ↦ hself.set path cache entry hreads.named) (p := p)
      rw [result, hending] at hafter
      apply hafter
      apply cache_renderVisits_of_visits _ (hself.get _ _ hreads.named h)
      intro step hstep hbefore
      exact cache_renderTag_of_children hreads hstep hchildren hbefore

theorem respects_of_mem_children {child : Run}
    (hbelow : ∀ other ∈ run.below setting, other.Respects setting p)
    (h : child ∈ run.children setting) :
    child.Respects setting p ∧ ∀ other ∈ child.below setting, other.Respects setting p :=
  ⟨hbelow child (mem_below.2 ⟨child, h, .inl rfl⟩),
    fun other hother ↦ hbelow other (mem_below.2 ⟨child, h, .inr hother⟩)⟩

/-- What neither a run nor the runs below it break is kept. -/
theorem cache_result_of_respects (hself : run.Respects setting p)
    (hbelow : ∀ other ∈ run.below setting, other.Respects setting p) (h : p run.state.cache) :
    p (run.result setting).2.cache := by
  induction run using forall_of_children setting with
  | h run ih =>
    refine cache_result hself (fun child hchild ↦ ?_) h
    obtain ⟨hchildSelf, hchildBelow⟩ := respects_of_mem_children hbelow hchild
    exact ih child hchild hchildSelf hchildBelow

/-- What a run below brings about, and neither the run nor the runs below it break, is there. -/
theorem cache_result_of_mem_below (hself : run.Respects setting p)
    (hbelow : ∀ other ∈ run.below setting, other.Respects setting p) {other : Run}
    (hmem : other ∈ run.below setting) (h : p (other.result setting).2.cache) :
    p (run.result setting).2.cache := by
  induction run using forall_of_children setting with
  | h run ih =>
    obtain ⟨child, hchild, hother⟩ := mem_below.1 hmem
    have hbehind : p (child.result setting).2.cache := by
      obtain ⟨hchildSelf, hchildBelow⟩ := respects_of_mem_children hbelow hchild
      rcases hother with rfl | hother
      · exact h
      · exact ih child hchild hchildSelf hchildBelow hother
    obtain ⟨path, source, step, hreads, hstep, hresult⟩ := exists_renderTag_of_mem_children hchild
    apply cache_result_of_reads hreads fun cache entry ↦ hself.set path cache entry hreads.named
    apply cache_renderVisits_of_visit _ hstep
    · rwa [← hresult] at hbehind
    · intro step hstep
      refine cache_renderTag_of_children hreads hstep fun child hchild ↦ ?_
      obtain ⟨hchildSelf, hchildBelow⟩ := respects_of_mem_children hbelow hchild
      exact cache_result_of_respects hchildSelf hchildBelow

end Keeping

/-! ## The entry of a path -/

/-- A run comes to a path below: it asks for a component as a child, or a child does. -/
def AsksFor (setting : Setting) (run : Run) (path : Path) : Prop :=
  ∃ other ∈ run.below setting, other.request.path? setting = some path

instance (setting : Setting) (run : Run) (path : Path) : Decidable (run.AsksFor setting path) :=
  inferInstanceAs (Decidable (∃ other ∈ _, _))

/-- The texts that are digested for what the runs below runs ask for. -/
def inputTextsBelow (setting : Setting) (runs : List Run) : List Text :=
  runs.flatMap fun run ↦ (run.below setting).map fun other ↦ other.request.inputText

/-- An entry stands under a path, if nothing is dropped for want of room. -/
def HasEntry (path : Path) (entry : Cache.Entry) (cache : Cache) : Prop :=
  cache.policy = .unbounded → cache.find? path = some entry

/-- No entry for a fingerprint stands under a path, if nothing is dropped for want of room. -/
def HasNoEntryFor (path : Path) (fingerprint : Text) (cache : Cache) : Prop :=
  cache.policy = .unbounded → ∀ entry, cache.find? path = some entry →
    entry.fingerprint ≠ fingerprint

section Entry

variable {run : Run} {path : Path} {entry : Cache.Entry} {fingerprint : Text}

theorem policy_result (setting : Setting) (run : Run) :
    (run.result setting).2.cache.policy = run.state.cache.policy :=
  (settled_render setting run.depth run.state run.request).policy

theorem not_same_of_path?_ne (hpath : path.IsCanonical)
    (h : run.request.path? setting ≠ some path) {other : Path}
    (hother : run.request.path? setting = some other) : Path.same path other = false := by
  rw [← Bool.not_eq_true]
  intro hsame
  have heq := hpath.eq_of_same (isCanonical_of_path? hother) hsame
  exact h (heq ▸ hother)

/-- Only what asks for a path changes its entry. -/
theorem respects_hasEntry (hpath : path.IsCanonical)
    (h : run.request.path? setting ≠ some path) :
    run.Respects setting (HasEntry path entry) where
  get other cache hother hentry hpolicy := by
    rw [Cache.find?_get_of_not_same (not_same_of_path?_ne hpath h hother)]
    exact hentry (Cache.policy_get.symm.trans hpolicy)
  set other cache new hother _ hentry hpolicy := by
    have hbefore : cache.policy = .unbounded := hpolicy
    rw [Cache.find?_set_of_not_same hbefore (not_same_of_path?_ne hpath h hother)]
    exact hentry hbefore

/-- Only what asks for a path with a fingerprint puts in an entry for it. -/
theorem respects_hasNoEntryFor (hpath : path.IsCanonical)
    (h : run.request.path? setting = some path → run.request.fingerprint ≠ fingerprint) :
    run.Respects setting (HasNoEntryFor path fingerprint) := by
  by_cases hself : run.request.path? setting = some path
  · have heq {other : Path} (hother : run.request.path? setting = some other) : other = path :=
      Option.some.inj (hother.symm.trans hself)
    constructor
    · intro other cache hother hnone hpolicy entry hentry
      rw [heq hother] at hentry
      cases hmiss : (cache.get setting.tree path (setting.tree.stamp path)
          run.request.fingerprint).1 with
      | none => simp [Cache.find?_get_of_eq_none hmiss] at hentry
      | some found =>
        rw [Cache.get_snd_of_eq_some hmiss] at hentry
        exact hnone (Cache.policy_get.symm.trans hpolicy) entry hentry
    · intro other cache new hother hnew _ hpolicy entry hentry
      have hkeeps : cache.policy.KeepsLast := by
        rw [show cache.policy = .unbounded from hpolicy]
        trivial
      rw [heq hother, Cache.find?_set_self cache path hkeeps] at hentry
      rw [← Option.some.inj hentry, hnew]
      exact h hself
  · constructor
    · intro other cache hother hnone hpolicy entry hentry
      rw [Cache.find?_get_of_not_same (not_same_of_path?_ne hpath hself hother)] at hentry
      exact hnone (Cache.policy_get.symm.trans hpolicy) entry hentry
    · intro other cache new hother _ hnone hpolicy entry hentry
      have hbefore : cache.policy = .unbounded := hpolicy
      rw [Cache.find?_set_of_not_same hbefore (not_same_of_path?_ne hpath hself hother)] at hentry
      exact hnone hbefore entry hentry

/-- A run whose component can be read leaves an entry that it would find. -/
theorem exists_find?_result (hpath : run.request.path? setting = some path)
    (hread : (setting.tree.read path).toOption.isSome = true)
    (hpolicy : run.state.cache.policy = .unbounded) :
    ∃ entry, (run.result setting).2.cache.find? path = some entry ∧
      entry.isFresh setting.tree .unbounded (setting.tree.stamp path) run.request.fingerprint =
        true := by
  have hsettled := settled_render setting run.depth run.state run.request
  have hexit := exit_render setting run.state run.request run.depth
  rw [result]
  generalize render setting run.depth run.state run.request = ending at hexit hsettled ⊢
  cases hexit with
  | missing hnone => simp [hnone] at hpath
  | @reused other entry hother hhit =>
    obtain rfl := Option.some.inj (hother.symm.trans hpath)
    obtain ⟨hfind, hfresh⟩ := Cache.find?_of_get_eq_some hhit
    exact ⟨entry, hfind, hpolicy ▸ hfresh⟩
  | unreadable hother _ hnone =>
    obtain rfl := Option.some.inj (hother.symm.trans hpath)
    simp [hnone] at hread
  | @rendered other source hreads =>
    obtain rfl := Option.some.inj (hreads.named.symm.trans hpath)
    let after := (childResults setting (childRenderer setting run.depth) run.state run.request
      other source).2
    have hafter : after.cache.policy = run.state.cache.policy := hsettled.policy
    have hkeeps : after.cache.policy.KeepsLast := by
      rw [hafter, hpolicy]
      trivial
    refine ⟨_, Cache.find?_set_self after.cache other hkeeps _,
      isFresh_iff.2 ⟨⟨⟨rfl, rfl⟩, rfl⟩, ?_⟩⟩
    exact fun dependency hmem ↦ hsettled.current dependency (List.mem_append_left _ hmem)

/-- A run that does not come to a path leaves its entry as it is. -/
theorem find?_result_of_not_asksFor (hpolicy : run.state.cache.policy = .unbounded)
    (hpath : path.IsCanonical) (hself : run.request.path? setting ≠ some path)
    (hbelow : ¬run.AsksFor setting path) (hfind : run.state.cache.find? path = some entry) :
    (run.result setting).2.cache.find? path = some entry := by
  refine cache_result_of_respects (respects_hasEntry hpath hself) ?_ (fun _ ↦ hfind)
    ((policy_result setting run).trans hpolicy)
  exact fun other hother ↦ respects_hasEntry hpath fun heq ↦ hbelow ⟨other, hother, heq⟩

variable (hpath : path.IsCanonical)
  (hself : run.request.path? setting ≠ some path)
  (hbelow : ∀ other ∈ run.below setting, other.request.path? setting = some path →
    other.request.fingerprint ≠ fingerprint)

include hpath hself hbelow

/-- A path that has no entry for a fingerprint gets none from runs that ask for others. -/
theorem hasNoEntryFor_result (h : HasNoEntryFor path fingerprint run.state.cache) :
    HasNoEntryFor path fingerprint (run.result setting).2.cache :=
  cache_result_of_respects (respects_hasNoEntryFor hpath fun heq ↦ absurd heq hself)
    (fun other hother ↦ respects_hasNoEntryFor hpath (hbelow other hother)) h

/-- What asks for a path with other fingerprints leaves no entry for this one. -/
theorem hasNoEntryFor_result_of_asksFor
    (hread : (setting.tree.read path).toOption.isSome = true) (h : run.AsksFor setting path) :
    HasNoEntryFor path fingerprint (run.result setting).2.cache := by
  obtain ⟨other, hother, hotherPath⟩ := h
  refine cache_result_of_mem_below (respects_hasNoEntryFor hpath fun heq ↦ absurd heq hself)
    (fun other hother ↦ respects_hasNoEntryFor hpath (hbelow other hother)) hother ?_
  intro hpolicy entry hentry
  obtain ⟨left, hleft, hfresh⟩ := exists_find?_result hotherPath hread
    ((policy_result setting other).symm.trans hpolicy)
  obtain rfl := Option.some.inj (hleft.symm.trans hentry)
  rw [(isFresh_iff.1 hfresh).1.1.2]
  exact hbelow other hother hotherPath

end Entry

end Run

end ComponentMarkup.Component

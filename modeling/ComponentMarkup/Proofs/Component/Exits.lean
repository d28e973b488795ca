import ComponentMarkup.Proofs.Cache.Entries
import ComponentMarkup.Proofs.Component.Alike

/-!
# How a rendering ends

A rendering ends in one of four ways: its component cannot be found, an entry of the cache is used
again, the file of the component cannot be read, or the file is rendered and what it comes to is put
into the cache. Whatever is to be shown of a single rendering is shown for these four.
-/

namespace ComponentMarkup.Component

open Text

/-- The entry that is put in for a result; the dependency on the component itself is left out. -/
def entryOf (setting : Setting) (path : Path) (request : Request) (output : Text)
    (dependencies : List Dependency) : Cache.Entry :=
  ⟨setting.tree.stamp path, Cache.fingerprint request.data request.invocation, dependencies,
    output⟩

/-- What an entry stands for: its output, and its dependencies with the component itself. -/
def resultOf (setting : Setting) (path : Path) (entry : Cache.Entry) : Rendered :=
  ⟨entry.output, entry.dependencies ++ [Dependency.of setting.tree path]⟩

/-- What the cache has for a component file that is asked for, and the cache afterwards. -/
def State.lookup (setting : Setting) (path : Path) (request : Request) (state : State) :
    Option Cache.Entry × Cache :=
  state.cache.get setting.tree path (setting.tree.stamp path) request.fingerprint

/-- The state after the cache has been asked. -/
def State.looked (setting : Setting) (path : Path) (request : Request) (state : State) : State :=
  { state with cache := (state.lookup setting path request).2 }

/-- A component file is rendered: nothing in the cache can be used, and the file can be read. -/
structure Reads (setting : Setting) (state : State) (request : Request) (path : Path)
    (source : Text) : Prop where
  named : request.path? setting = some path
  missed : (state.lookup setting path request).1 = none
  read : setting.tree.read path = .ok source

section Exits

variable (setting : Setting) (child? : Option Renderer) (state : State) (request : Request)
  (path : Path) (source : Text)

/-- The draft of a component file that is rendered. -/
def drafted : Draft := draft setting state.host path request.data request.invocation source

/-- The state in which the first child of a component file is rendered. -/
def begun : State := (state.looked setting path request).filled setting path request source

/-- The children of a component file, and the state behind the last one. -/
def childResults : List Rendered × State :=
  let draft := drafted setting state request path source
  renderVisits setting child? draft.page draft.visits (begun setting state request path source)

/-- The entry that the rendering of a component file puts into the cache. -/
def madeEntry : Cache.Entry :=
  let draft := drafted setting state request path source
  let results := (childResults setting child? state request path source).1
  entryOf setting path request (draft.output setting (outputsOf draft.visits results))
    (draft.own ++ results.flatMap Rendered.dependencies)

/-- The state behind a component file that has been rendered. -/
def rendered : State :=
  let after := (childResults setting child? state request path source).2
  { after with
    calls := after.calls ++ closingCalls setting state.host path request.data source
    cache := after.cache.set path (madeEntry setting child? state request path source) }

/-- The ways in which a rendering ends. -/
inductive Exit : Rendered × State → Prop
  | missing (hpath : request.path? setting = none) : Exit (.nothing, state)
  | reused {path : Path} {entry : Cache.Entry} (hpath : request.path? setting = some path)
      (hhit : (state.lookup setting path request).1 = some entry) :
      Exit (resultOf setting path entry, state)
  | unreadable {path : Path} (hpath : request.path? setting = some path)
      (hmiss : (state.lookup setting path request).1 = none)
      (hread : (setting.tree.read path).toOption = none) :
      Exit (.nothing, state.looked setting path request)
  | rendered {path : Path} {source : Text} (h : Reads setting state request path source) :
      Exit (resultOf setting path (madeEntry setting child? state request path source),
        rendered setting child? state request path source)

variable {setting child? state request} in
/-- A component comes to what is said of the way in which its rendering ends. -/
theorem renderWith_of_exit {ending : Rendered × State}
    (h : Exit setting child? state request ending) :
    renderWith setting child? state request = ending := by
  have hpath? : resolve? setting.tree setting.options.extension request.dir request.reference =
      request.path? setting := rfl
  have hlookup (path : Path) : state.cache.get setting.tree path (setting.tree.stamp path)
      (Cache.fingerprint request.data request.invocation) = state.lookup setting path request := rfl
  unfold renderWith
  rw [hpath?]
  cases h with
  | missing hpath => simp only [hpath]
  | @reused path entry hpath hhit =>
    have hkept : (state.lookup setting path request).2 = state.cache :=
      Cache.get_snd_of_eq_some hhit
    simp only [hpath, hlookup, hhit, hkept]
    rfl
  | @unreadable path hpath hmiss hread =>
    simp only [hpath, hlookup, hmiss]
    cases hfound : setting.tree.read path with
    | error error => rfl
    | ok source => simp [hfound, Except.toOption] at hread
  | @rendered path source hreads =>
    have hsource := renderSource_eq_filled setting child? path request source
      (state.looked setting path request)
    simp only [State.looked] at hsource
    simp only [hreads.named, hlookup, hreads.missed, hreads.read, hsource]
    rfl

/-- Every rendering ends in one of the ways. -/
theorem exit_renderWith :
    Exit setting child? state request (renderWith setting child? state request) := by
  obtain ⟨ending, h⟩ : ∃ ending, Exit setting child? state request ending := by
    cases hpath : request.path? setting with
    | none => exact ⟨_, .missing hpath⟩
    | some path =>
      cases hhit : (state.lookup setting path request).1 with
      | some entry => exact ⟨_, .reused hpath hhit⟩
      | none =>
        cases hread : setting.tree.read path with
        | error error => exact ⟨_, .unreadable hpath hhit (by rw [hread]; rfl)⟩
        | ok source => exact ⟨_, .rendered ⟨hpath, hhit, hread⟩⟩
  rwa [renderWith_of_exit h]

theorem exit_render (depth : Nat) :
    Exit setting (childRenderer setting depth) state request
      (render setting depth state request) := by
  rw [render_eq]
  exact exit_renderWith setting _ state request

end Exits

/-- What holds at a depth if it holds one level further down holds at every depth. -/
theorem forall_depth_of_below {p : Nat → Prop}
    (h : ∀ depth, (∀ n, depth = n + 1 → p n) → p depth) (depth : Nat) : p depth := by
  induction depth with
  | zero => exact h 0 fun n hn ↦ absurd hn (Nat.succ_ne_zero n).symm
  | succ depth ih =>
    apply h
    intro n hn
    rwa [← Nat.succ.inj hn]

/-! ## Renderings whose end is known -/

section Ends

variable {setting : Setting} {state : State} {request : Request} {path : Path}

theorem render_of_path?_eq_none (hpath : request.path? setting = none) (depth : Nat) :
    render setting depth state request = (.nothing, state) := by
  rw [render_eq]
  exact renderWith_of_exit (.missing hpath)

/-- What is in the cache is what a rendering comes to, and nothing else happens. -/
theorem render_of_lookup (hpath : request.path? setting = some path) {entry : Cache.Entry}
    (hhit : (state.lookup setting path request).1 = some entry) (depth : Nat) :
    render setting depth state request = (resultOf setting path entry, state) := by
  rw [render_eq]
  exact renderWith_of_exit (.reused hpath hhit)

theorem render_of_unreadable (hpath : request.path? setting = some path)
    (hmiss : (state.lookup setting path request).1 = none)
    (hread : (setting.tree.read path).toOption = none) (depth : Nat) :
    render setting depth state request = (.nothing, state.looked setting path request) := by
  rw [render_eq]
  exact renderWith_of_exit (.unreadable hpath hmiss hread)

/-- A component file that is rendered leaves its entry in the cache. -/
theorem render_of_reads {source : Text} (h : Reads setting state request path source)
    (depth : Nat) :
    render setting depth state request =
      (resultOf setting path
          (madeEntry setting (childRenderer setting depth) state request path source),
        rendered setting (childRenderer setting depth) state request path source) := by
  rw [render_eq]
  exact renderWith_of_exit (.rendered h)

end Ends

end ComponentMarkup.Component

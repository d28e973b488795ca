import ComponentMarkup.Proofs.Component.Resolve

/-!
# One path for every reference

However a reference to a file is written, it is resolved to one path of the file, from any
directory that path is resolved to itself, and by either the same rendering is asked for.
-/

namespace ComponentMarkup.Component

open FileTree
open ComponentMarkup.Path

/-- Where the component of a reference is looked for: at what the reference names, or at the index
component in it. -/
def target (tree : FileTree) (extension : Text) (dir reference : Path) : Path :=
  let path := Reference.path tree dir reference
  if tree.isDirectory path then Path.join path (indexName extension) else path

theorem resolve?_eq_target (tree : FileTree) (extension : Text) (dir reference : Path) :
    resolve? tree extension dir reference =
      if tree.isFile (target tree extension dir reference) then
        tree.canonical? (target tree extension dir reference)
      else none := rfl

section Places

variable {tree : FileTree} {extension : Text} {dir dir' reference reference' path path' : Path}

/-- A reference and the path that it is resolved to lead to the same place. -/
theorem locate_target (h : resolve? tree extension dir reference = some path) :
    tree.locate (target tree extension dir reference) = tree.locate path := by
  rw [resolve?_eq_target] at h
  split_ifs at h with hfile
  exact (locate_of_canonical? h (exists_of_isFile hfile)).symm

/-- References to one place are resolved to one path, and others to others. -/
theorem same_iff_locate_target (h : resolve? tree extension dir reference = some path)
    (h' : resolve? tree extension dir' reference' = some path') :
    Path.same path path' = true ↔
      tree.locate (target tree extension dir reference) =
        tree.locate (target tree extension dir' reference') := by
  rw [locate_target h, locate_target h']
  have hpath := isCanonical_of_resolve? h
  have hpath' := isCanonical_of_resolve? h'
  constructor
  · intro hsame
    rw [hpath.eq_of_same hpath' hsame]
  · intro hlocate
    have hcanonical := canonical?_of_exists hpath (exists_of_isFile (isFile_of_resolve? h))
    have hcanonical' := canonical?_of_exists hpath' (exists_of_isFile (isFile_of_resolve? h'))
    rw [canonical?, hlocate, ← canonical?, hcanonical', Option.some.injEq] at hcanonical
    rw [hcanonical]
    exact decide_eq_true rfl

end Places

section Renderings

variable {setting : Setting} {dir reference path : Path}

/-- A component is rendered alike by its reference and by the path that this is resolved to. -/
theorem renderWith_resolved
    (h : resolve? setting.tree setting.options.extension dir reference = some path)
    (child? : Option Renderer) (state : State) (other : Path) (data : Data)
    (invocation : Attributes) :
    renderWith setting child? state ⟨dir, reference, data, invocation⟩ =
      renderWith setting child? state ⟨other, path, data, invocation⟩ := by
  have hself : resolve? setting.tree setting.options.extension other path = some path :=
    resolve?_self (isCanonical_of_resolve? h) (isFile_of_resolve? h) other
  simp only [renderWith, h, hself]
  rfl

theorem render_resolved
    (h : resolve? setting.tree setting.options.extension dir reference = some path) (depth : Nat)
    (state : State) (other : Path) (data : Data) (invocation : Attributes) :
    render setting depth state ⟨dir, reference, data, invocation⟩ =
      render setting depth state ⟨other, path, data, invocation⟩ := by
  cases depth <;> exact renderWith_resolved h _ state other data invocation

/-- What a reference is resolved to is the canonical path of a file, which is resolved to itself
from anywhere. A child is resolved once for its tag and once more where it is rendered, and that
makes no difference; nor does it whether a component is asked for by one reference or by another
one that leads to the same file, as both have one key and one id. -/
theorem resolve?_stable
    (h : resolve? setting.tree setting.options.extension dir reference = some path) :
    (isAbsolute path = true ∧ path.IsCanonical ∧ setting.tree.isFile path = true ∧
      setting.tree.canonical? path = some path) ∧
    (∀ other, resolve? setting.tree setting.options.extension other path = some path) ∧
    (∀ depth state data invocation other,
      render setting depth state ⟨dir, reference, data, invocation⟩ =
        render setting depth state ⟨other, path, data, invocation⟩) ∧
    (∀ depth state data invocation tag,
      let page : Page := ⟨dir, data, invocation⟩
      renderTag setting (some (render setting depth)) page reference state tag =
        render setting depth state
          { childRequest setting state.host page tag path with reference := reference }) ∧
    ∀ dir' reference' path',
      resolve? setting.tree setting.options.extension dir' reference' = some path' →
      let found := target setting.tree setting.options.extension dir reference
      let found' := target setting.tree setting.options.extension dir' reference'
      (setting.tree.locate found = setting.tree.locate found' ↔ Path.same path path' = true) ∧
        (setting.tree.locate found = setting.tree.locate found' →
          path = path' ∧ Path.componentId path = Path.componentId path') := by
  have hpath := isCanonical_of_resolve? h
  have hfile := isFile_of_resolve? h
  refine ⟨⟨hpath.isAbsolute, hpath, hfile,
    canonical?_of_exists hpath (exists_of_isFile hfile)⟩, resolve?_self hpath hfile,
    fun depth state data invocation other ↦ render_resolved h depth state other data invocation,
    fun depth state data invocation tag ↦ ?_, fun dir' reference' path' h' ↦ ?_⟩
  · simp only [renderTag, h]
    exact (render_resolved h depth state dir _ _).symm
  · have hsame := (same_iff_locate_target h h').symm
    refine ⟨hsame, fun hplace ↦ ?_⟩
    obtain rfl := hpath.eq_of_same (isCanonical_of_resolve? h') (hsame.1 hplace)
    exact ⟨rfl, rfl⟩

end Renderings

/-- A tree with one component, which is the index of a directory. -/
def blog : FileTree :=
  FileTree.empty.write "/rain/blog/index.rain".toList (.text "<p>B</p>".toList) (some 1)

def blogSetting : Setting := ⟨blog, .default⟩

/-- No `/blog//` is there, so it is looked for below the directory, where it is a directory. From
elsewhere the same file is reached upwards. -/
theorem resolve?_blog :
    let path := "/rain/blog/index.rain".toList
    let dir := "/rain/./blog/..".toList
    let dir' := "/rain/blog/".toList
    let reference' := "..//blog/./index.rain".toList
    blog.exists? "/blog//".toList = false ∧ blog.exists? "/nowhere".toList = false ∧
      resolve? blog "rain".toList dir "/blog//".toList = some path ∧
      resolve? blog "rain".toList dir' reference' = some path ∧
      resolve? blog "rain".toList "/nowhere".toList path = some path ∧
      (∀ depth state data invocation,
        render blogSetting depth state ⟨dir, "/blog//".toList, data, invocation⟩ =
          render blogSetting depth state ⟨"/nowhere".toList, path, data, invocation⟩) ∧
      blog.locate (target blog "rain".toList dir "/blog//".toList) =
        blog.locate (target blog "rain".toList dir' reference') := by
  intro path dir dir' reference'
  have h : resolve? blogSetting.tree blogSetting.options.extension dir "/blog//".toList =
    some path := by decide +kernel
  have h' : resolve? blog "rain".toList dir' reference' = some path := by decide +kernel
  obtain ⟨-, hself, hrender, -, hothers⟩ := resolve?_stable h
  exact ⟨by decide +kernel, by decide +kernel, h, h', hself _,
    fun depth state data invocation ↦ hrender depth state data invocation _,
    (hothers _ _ _ h').1.2 (by decide +kernel)⟩

end ComponentMarkup.Component

import ComponentMarkup.Proofs.Component.Settled
import ComponentMarkup.Site

/-!
# The same call again

A call that is made again while the files stay as they are is answered from the cache, whatever was
in the cache before: the entry of the outermost component is the last one that the first call put
in, it is kept, and all files that it depends on still have the stamps that were recorded. A
component that cannot be found or read leaves nothing to be found, and comes out empty again.
-/

namespace ComponentMarkup

theorem Cache.Policy.KeepsLast.isInstant_eq {policy : Cache.Policy} (h : policy.KeepsLast) :
    policy.isInstant = false := by
  cases policy with
  | unbounded => rfl
  | entries most => rfl
  | age seconds => exact h.elim

namespace Component

/-- A component that has been rendered is rendered to the same again, and nothing else happens. -/
theorem render_render (setting : Setting) (depth : Nat) (request : Request) (state again : State)
    (hkeeps : state.cache.policy.KeepsLast)
    (hcache : again.cache = (render setting depth state request).2.cache) :
    (render setting depth again request).1.output =
        (render setting depth state request).1.output ∧
      (render setting depth again request).2 = again := by
  have hsettled := settled_render setting depth state request
  have hexit := exit_render setting state request depth
  generalize render setting depth state request = first at hsettled hexit hcache ⊢
  cases hexit with
  | missing hpath =>
    rw [render_of_path?_eq_none hpath]
    exact ⟨rfl, rfl⟩
  | @reused path entry hpath hhit =>
    have hagain : (again.lookup setting path request).1 = some entry := by
      rw [State.lookup, hcache]
      exact hhit
    rw [render_of_lookup hpath hagain]
    exact ⟨rfl, rfl⟩
  | @unreadable path hpath hmiss hread =>
    have hfind : again.cache.find? path = none := by
      rw [hcache]
      exact Cache.find?_get_of_eq_none hmiss
    have hagain : again.lookup setting path request = (none, again.cache) :=
      Cache.get_of_find?_eq_none hfind
    rw [render_of_unreadable hpath (by rw [hagain]) hread, State.looked, hagain]
    exact ⟨rfl, rfl⟩
  | @rendered path source h =>
    let entry := madeEntry setting (childRenderer setting depth) state request path source
    let after := (childResults setting (childRenderer setting depth) state request path source).2
    have hput : again.cache = after.cache.set path entry := hcache
    have hafter : after.cache.policy.KeepsLast := by
      rw [show after.cache.policy = state.cache.policy from hsettled.policy]
      exact hkeeps
    have hpolicy : again.cache.policy.KeepsLast := by
      rw [hput]
      exact hafter
    have hfind : again.cache.find? path = some entry := by
      rw [hput]
      exact Cache.find?_set_self after.cache path hafter entry
    have hcurrent : AllCurrent setting.tree entry.dependencies := fun dependency hmem ↦
      hsettled.current dependency (List.mem_append_left _ hmem)
    have hfresh : entry.isFresh setting.tree again.cache.policy (setting.tree.stamp path)
        request.fingerprint = true :=
      isFresh_iff.2 ⟨⟨⟨rfl, rfl⟩, hpolicy.isInstant_eq⟩, hcurrent⟩
    have hagain : (again.lookup setting path request).1 = some entry := by
      rw [State.lookup, Cache.get_of_isFresh hfind hfresh]
    rw [render_of_lookup h.named hagain]
    exact ⟨rfl, rfl⟩

end Component

namespace Site

/-- A call for one component that is made again gives the same output, calls no renderer and leaves
the site as it is. -/
theorem render_again (site : Site) (hkeeps : site.cache.policy.KeepsLast) (tree : FileTree)
    (reference : Path) (data : Data) :
    let first := site.render tree (.one reference) data
    first.2.2.render tree (.one reference) data = (first.1, [], first.2.2) := by
  intro first
  obtain ⟨houtput, hstate⟩ := Component.render_render (site.setting tree) site.options.maxDepth
    ⟨site.root, reference, data, []⟩ site.start first.2.2.start hkeeps rfl
  let again := Component.render (site.setting tree) site.options.maxDepth first.2.2.start
    ⟨site.root, reference, data, []⟩
  have hagain : first.2.2.render tree (.one reference) data =
      (again.1.output, again.2.calls, first.2.2.resume again.2) := rfl
  have hagainState : again.2 = first.2.2.start := hstate
  have hagainOutput : again.1.output = first.1 := houtput
  rw [hagain, hagainState, hagainOutput]
  rfl

/-- A component that includes itself. -/
def spiral : FileTree :=
  (FileTree.empty.write "/rain/spiral.rain".toList
      (.text "<template>(<spiral></spiral>)</template>".toList) (some 1)).write
    "/rain/spiral.json".toList (.text "\x7b\"components\":[\"spiral.rain\"]\x7d".toList) (some 1)

/-- One entry is kept, and the renderings of the component within itself put it in first. -/
def spiralSite : Site :=
  new "/rain".toList { Options.default with cache := ⟨some 1, none⟩, maxDepth := 2 } .default

theorem render_spiral_again :
    spiralSite.cache.policy.KeepsLast ∧
      (let first := spiralSite.render spiral (.one "spiral.rain".toList) []
      first.2.2.render spiral (.one "spiral.rain".toList) [] = (first.1, [], first.2.2)) ∧
      (spiralSite.render spiral (.one "spiral.rain".toList) []).1 = "((()))".toList ∧
      (spiralSite.render spiral (.one "spiral.rain".toList) []).2.1.isEmpty = false :=
  ⟨by decide, render_again spiralSite (by decide) spiral "spiral.rain".toList [],
    by decide +kernel, by decide +kernel⟩

end Site

end ComponentMarkup

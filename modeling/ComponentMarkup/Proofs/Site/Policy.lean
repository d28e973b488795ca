import ComponentMarkup.Proofs.Component.Repeats
import ComponentMarkup.Proofs.Site.Calls

/-!
# Cache policies cannot be seen

On files that do not change, what a cache keeps makes no difference to the outputs, as long as two
conditions hold for all that is asked for. Digests tell the inputs of a component apart. And a
component that is asked for twice with one input, with different depths left below it, comes out
the same both times: the depth is no part of an entry, so an output that was cut off deep down
would be taken for one that was not.
-/

namespace ComponentMarkup

open Component

/-! ## Limits of the cache -/

section Limits

variable (tree : FileTree) (options : Options) (limits : CacheLimits) (host : Host)

/-- Outcomes do not ask for the limits of the cache. -/
theorem Component.outcome_limits (depth : Nat) (request : Request) :
    Component.outcome ⟨tree, { options with cache := limits }⟩ host depth request =
      Component.outcome ⟨tree, options⟩ host depth request := by
  induction depth generalizing request with
  | zero => rfl
  | succ depth ih =>
    have hchild : Component.outcome ⟨tree, { options with cache := limits }⟩ host depth =
        Component.outcome ⟨tree, options⟩ host depth := funext ih
    rw [Component.outcome, hchild]
    rfl

theorem Component.asked_limits (depth : Nat) (request : Request) :
    Component.asked ⟨tree, { options with cache := limits }⟩ host depth request =
      Component.asked ⟨tree, options⟩ host depth request := by
  induction depth generalizing request with
  | zero => rfl
  | succ depth ih =>
    have hchild : Component.asked ⟨tree, { options with cache := limits }⟩ host depth =
        Component.asked ⟨tree, options⟩ host depth := funext ih
    rw [Component.asked, hchild]
    rfl

theorem Component.depthsAgree_limits {askings : List Asking}
    (h : DepthsAgree ⟨tree, options⟩ host askings) :
    DepthsAgree ⟨tree, { options with cache := limits }⟩ host askings := by
  intro a ha b hb hrepeats hdepth
  have hagree := h a ha b hb hrepeats hdepth
  simp only [Asking.outcome, outcome_limits] at hagree ⊢
  exact hagree

end Limits

namespace Site

/-- All that calls ask for. -/
def askedByAll (site : Site) (tree : FileTree) (calls : List (Target × Data)) : List Asking :=
  calls.flatMap fun call ↦ site.asked tree call.1 call.2

/-- What is asked for on the way to something that calls ask for is asked for by these calls. -/
theorem mem_askedByAll_of_childRequests (site : Site) {tree : FileTree}
    {calls : List (Target × Data)} {depth : Nat} {request child : Request}
    (h : ⟨depth + 1, request⟩ ∈ site.askedByAll tree calls)
    (hchild : child ∈ childRequests (site.setting tree) site.host request) :
    ⟨depth, child⟩ ∈ site.askedByAll tree calls := by
  obtain ⟨call, hcall, h⟩ := List.mem_flatMap.1 h
  exact List.mem_flatMap.2 ⟨call, hcall, site.mem_asked_of_childRequests h hchild⟩

/-- Calls show the outcomes of their targets, if reuse keeps a property of the entries. -/
theorem serve_eq_map (site : Site) {tree : FileTree} {looks : Rendered → Rendered → Prop}
    {among : Asking → Prop} {kept : Path → Cache.Entry → Prop} (hlooks : IsObservation looks)
    (hbare : site.host.IsBare)
    (hkept : KeptByReuse (site.setting tree) site.host site.cache.policy looks among kept)
    {calls : List (Target × Data)}
    (hamong : ∀ asking ∈ site.askedByAll tree calls, among asking)
    (hentries : ∀ entry ∈ site.cache.entries, kept entry.1 entry.2) :
    site.serve tree calls = calls.map fun call ↦ site.outcome tree call.1 call.2 := by
  induction calls generalizing site with
  | nil => rfl
  | cons call rest ih =>
    have hasked {asking : Asking} (h : asking ∈ site.asked tree call.1 call.2) : among asking :=
      hamong asking (List.mem_flatMap.2 ⟨call, List.mem_cons_self, h⟩)
    obtain ⟨houtput, hhost, hpolicy, hafter⟩ :=
      render_shows hlooks hbare.isSteady hkept (fun _ h ↦ hasked (site.mem_asked_of_requests tree h)) rfl
        hentries
    let next := (site.render tree call.1 call.2).2.2
    have hnext : next = { site with cache := next.cache } := by
      calc
        next = { site with host := next.host, cache := next.cache } := rfl
        _ = _ := by rw [hbare.eq_of_now_eq hhost]
    have hrest : next.serve tree rest = rest.map fun call ↦ site.outcome tree call.1 call.2 := by
      rw [hnext]
      apply ih
      · exact hbare
      · rw [show ({ site with cache := next.cache } : Site).cache.policy = _ from hpolicy]
        exact hkept
      · intro asking h
        obtain ⟨c, hc, h⟩ := List.mem_flatMap.1 h
        exact hamong asking (List.mem_flatMap.2 ⟨c, List.mem_cons_of_mem _ hc, h⟩)
      · exact hafter
    calc
      site.serve tree (call :: rest) =
          (site.render tree call.1 call.2).1 :: next.serve tree rest := rfl
      _ = _ := by rw [houtput, hrest, List.map_cons]

theorem serve_new_eq_map {tree : FileTree} {root : Path} {options : Options} {host : Host}
    (hbare : host.IsBare) {calls : List (Target × Data)}
    (hdigest : DigestsTellApart (inputTexts ((new root options host).askedByAll tree calls)))
    (hdepth : DepthsAgree ⟨tree, options⟩ host ((new root options host).askedByAll tree calls)) :
    (new root options host).serve tree calls =
      calls.map fun call ↦ (new root options host).outcome tree call.1 call.2 := by
  have hclosed {depth : Nat} {request child : Request}
      (h : ⟨depth + 1, request⟩ ∈ (new root options host).askedByAll tree calls)
      (hchild : child ∈ childRequests ⟨tree, options⟩ host request) :
      ⟨depth, child⟩ ∈ (new root options host).askedByAll tree calls :=
    mem_askedByAll_of_childRequests (new root options host) h hchild
  apply serve_eq_map (new root options host) isObservation_sameOutput hbare
    (keptByReuse_isEntryOf _ hclosed hdigest (repeatsAgree_of_depthsAgree hbare hdepth))
  · exact fun _ h ↦ h
  · intro entry hentry
    exact absurd hentry List.not_mem_nil

section Limits

variable (tree : FileTree) (root : Path) (options : Options) (limits : CacheLimits)

theorem asked_limits (host : Host) (target : Target) (data : Data) :
    (new root { options with cache := limits } host).asked tree target data =
      (new root options host).asked tree target data := by
  have hasked := funext (Component.asked_limits tree options limits host options.maxDepth)
  cases target <;> exact congrArg (List.flatMap · _) hasked

theorem outcome_limits (host : Host) (target : Target) (data : Data) :
    (new root { options with cache := limits } host).outcome tree target data =
      (new root options host).outcome tree target data := by
  have hcomponent (reference : Path) (data : Data) :
      (new root { options with cache := limits } host).componentOutcome tree reference data =
        (new root options host).componentOutcome tree reference data :=
    congrArg Rendered.output
      (Component.outcome_limits tree options limits host options.maxDepth _)
  cases target with
  | one reference => exact hcomponent reference data
  | many references =>
    simp only [outcome, hcomponent]

/-- Whatever the limits of the cache are, calls give the outcomes of their targets. -/
theorem serve_limits_eq_map {host : Host} (hbare : host.IsBare) {calls : List (Target × Data)}
    (hdigest : DigestsTellApart (inputTexts ((new root options host).askedByAll tree calls)))
    (hdepth : DepthsAgree ⟨tree, options⟩ host ((new root options host).askedByAll tree calls)) :
    (new root { options with cache := limits } host).serve tree calls =
      calls.map fun call ↦ (new root options host).outcome tree call.1 call.2 := by
  have hasked : (new root { options with cache := limits } host).askedByAll tree calls =
      (new root options host).askedByAll tree calls := by
    unfold askedByAll
    congr 1
    funext call
    exact asked_limits tree root options limits host call.1 call.2
  rw [serve_new_eq_map hbare]
  · apply List.map_congr_left
    intro call _
    exact outcome_limits tree root options limits host call.1 call.2
  · rw [hasked]
    exact hdigest
  · rw [hasked]
    exact depthsAgree_limits tree options limits host hdepth

/-- Limits of a cache that keeps no entry. -/
def noEntries : CacheLimits := ⟨some 0, none⟩

/-- Call by call a site gives the outputs that it gives without ever using an entry again. -/
theorem serve_eq_serve_noEntries (calls : List (Target × Data))
    (hdigest : DigestsTellApart (inputTexts ((new root options .default).askedByAll tree calls)))
    (hdepth :
      DepthsAgree ⟨tree, options⟩ .default ((new root options .default).askedByAll tree calls)) :
    (new root { options with cache := limits } .default).serve tree calls =
      (new root { options with cache := noEntries } .default).serve tree calls := by
  have hbare : Host.default.IsBare := Host.isBare_ofExtension _
  rw [serve_limits_eq_map tree root options limits hbare hdigest hdepth,
    serve_limits_eq_map tree root options noEntries hbare hdigest hdepth]

end Limits

/-! ## A component at two depths of a page -/

/-- A page that holds a card and a wrap with a card; the card has this template. -/
def cardTwice (template : Text) : FileTree :=
  let file (name content : String) (tree : FileTree) : FileTree :=
    tree.write ("/rain/".toList ++ name.toList) (.text content.toList) (some 1)
  (file "page.rain" "<template><wrap></wrap>|<card></card></template>"
    <| file "page.json" "\x7b\"components\":[\"wrap.rain\",\"card.rain\"]\x7d"
    <| file "wrap.rain" "<template><card></card></template>"
    <| file "wrap.json" "\x7b\"components\":[\"card.rain\"]\x7d"
    <| file "card.json" "\x7b\"components\":[\"badge.rain\"]\x7d"
    <| file "badge.rain" "<template>B</template>" .empty).write
      "/rain/card.rain".toList (.text ("<template>".toList ++ template ++ "</template>".toList))
      (some 1)

/-- Nothing is nested deeper than two below a page. -/
def twoDeep : Options := { Options.default with maxDepth := 2 }

def cardCalls : List (Target × Data) :=
  [(.one "page.rain".toList, []), (.one "card.rain".toList, [])]

/-- The card is rendered at two depths; it nests nothing, so both come out the same. -/
theorem serve_card_eq_serve_noEntries :
    DigestsTellApart (inputTexts
        ((new "/rain".toList twoDeep .default).askedByAll (cardTwice "[c]".toList) cardCalls)) ∧
      DepthsAgree ⟨cardTwice "[c]".toList, twoDeep⟩ .default
        ((new "/rain".toList twoDeep .default).askedByAll (cardTwice "[c]".toList) cardCalls) ∧
      (new "/rain".toList { twoDeep with cache := ⟨none, none⟩ } .default).serve
          (cardTwice "[c]".toList) cardCalls =
        (new "/rain".toList { twoDeep with cache := noEntries } .default).serve
          (cardTwice "[c]".toList) cardCalls := by
  have hdigest : DigestsTellApart (inputTexts
      ((new "/rain".toList twoDeep .default).askedByAll (cardTwice "[c]".toList) cardCalls)) := by
    decide +kernel
  have hdepth : DepthsAgree ⟨cardTwice "[c]".toList, twoDeep⟩ .default
      ((new "/rain".toList twoDeep .default).askedByAll (cardTwice "[c]".toList) cardCalls) := by
    decide +kernel
  exact ⟨hdigest, hdepth, serve_eq_serve_noEntries _ _ _ ⟨none, none⟩ _ hdigest hdepth⟩

/-- A card that nests a badge is cut off below the wrap, and its entry is used beside the wrap:
the depth is no part of an entry. -/
theorem serve_badge_ne_serve_noEntries :
    (new "/rain".toList { twoDeep with cache := ⟨none, none⟩ } .default).serve
          (cardTwice "[<badge></badge>]".toList) [(.one "page.rain".toList, [])] =
        ["[]|[]".toList] ∧
      (new "/rain".toList { twoDeep with cache := noEntries } .default).serve
          (cardTwice "[<badge></badge>]".toList) [(.one "page.rain".toList, [])] =
        ["[]|[B]".toList] := by
  decide +kernel

end Site

end ComponentMarkup

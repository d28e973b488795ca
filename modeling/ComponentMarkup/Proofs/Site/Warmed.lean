import ComponentMarkup.Proofs.Component.Calls
import ComponentMarkup.Proofs.Component.Leaves
import ComponentMarkup.Proofs.FileTree.Discovered
import ComponentMarkup.Proofs.Template.Children
import ComponentMarkup.Site

/-!
# Warming

Warming renders the components of a site one after the other, each without data. The cache has one
entry for each path, so what counts is the last asking for a path: a component that nothing asks for
behind its own turn is served from the cache, and one that a later component asks for as a child is
not, since a child is always given its inner text.
-/

namespace ComponentMarkup

open ComponentMarkup.Path

namespace Component

variable {tree : FileTree} {dir : Path} {extension : Text} {place names : List Text}

/-- The reference to a discovered component is resolved to its path. -/
theorem resolve?_joinWith_of_mem_names (hproper : tree.IsProper)
    (hlocate : tree.locate dir = .ok place) (hplace : tree.sight place = some .directory)
    (hmem : names ∈ Discovery.names tree dir extension) :
    resolve? tree extension dir (Text.joinWith ['/'] names) = some (ofNames (place ++ names)) := by
  obtain ⟨_, hnames, content, modified, hfile⟩ :=
    Discovery.exists_file_of_mem_names hproper hlocate hplace hmem
  have hjoin := Discovery.locate_join_of_mem_names hproper hlocate hplace hmem
  have hisFile : tree.isFile (join dir (Text.joinWith ['/'] names)) = true := by
    rw [FileTree.isFile_iff, FileTree.sight_of_locate hjoin]
    exact ⟨content, modified, hfile⟩
  unfold resolve?
  simp only [Reference.path_of_relative (Discovery.isAbsolute_joinWith hnames), hisFile,
    isDirectory_of_isFile hisFile, Bool.false_eq_true, if_false, if_true, FileTree.canonical?,
    hjoin]

/-- A child is given its inner text, so it is not given what a component without data is given. -/
theorem inputText_childRequest_ne (setting : Setting) (host : Host) (page : Page)
    (tag : Tag.Occurrence) (path : Path) :
    (childRequest setting host page tag path).inputText ≠ Cache.inputText [] [] := by
  intro heq
  have hdata := (Cache.inputText_inj heq).1
  rw [Json.Value.outlineMembers_eq_map, Json.Value.outlineMembers_eq_map, List.map_nil,
    List.map_eq_nil_iff] at hdata
  have hfind : Dict.find? (childRequest setting host page tag path).data childrenName =
      some (.string tag.innerText) := find?_childData _ _ _ _ _
  rw [hdata] at hfind
  simp at hfind

theorem inputText_ne_of_mem_below {setting : Setting} {run other : Run}
    (h : other ∈ run.below setting) : other.request.inputText ≠ Cache.inputText [] [] := by
  induction run using Run.forall_of_children setting with
  | h run ih =>
    obtain ⟨child, hchild, rfl | hother⟩ := Run.mem_below.1 h
    · obtain ⟨_, _, _, _, _, _, _, hchild⟩ := Run.mem_children.1 hchild
      obtain ⟨_, _, rfl⟩ := Option.map_eq_some_iff.1 hchild
      exact inputText_childRequest_ne _ _ _ _ _
    · exact ih child hchild hother

end Component

namespace Site

open Component FileTree

/-- The runs of components that are rendered one after the other without data. -/
def runs (site : Site) (tree : FileTree) : List Path → State → List Run
  | [], _ => []
  | reference :: rest, state =>
    let run : Run := ⟨site.options.maxDepth, state, ⟨site.root, reference, [], []⟩⟩
    run :: site.runs tree rest (run.result (site.setting tree)).2

/-- The runs of components that are rendered behind others. -/
def runsBehind (site : Site) (tree : FileTree) (before after : List Path) : List Run :=
  site.runs tree after (site.renderCounting tree before site.start).2

section Counting

variable (site : Site) (tree : FileTree)

theorem renderCounting_append (before after : List Path) (state : State) :
    (site.renderCounting tree (before ++ after) state).2 =
      (site.renderCounting tree after (site.renderCounting tree before state).2).2 := by
  induction before generalizing state with
  | nil => rfl
  | cons reference rest ih => exact ih _

theorem policy_renderCounting (references : List Path) (state : State) :
    (site.renderCounting tree references state).2.cache.policy = state.cache.policy := by
  induction references generalizing state with
  | nil => rfl
  | cons reference rest ih =>
    exact (ih _).trans (Run.policy_result (site.setting tree)
      ⟨site.options.maxDepth, state, ⟨site.root, reference, [], []⟩⟩)

theorem policy_warm : (site.warm tree).2.2.cache.policy = site.cache.policy :=
  policy_renderCounting site tree (site.components tree) site.start

variable {site tree} {path : Path} {references : List Path} {state : State}

/-- Components that neither are at a path nor ask for it leave its entry as it is. -/
theorem find?_renderCounting (hpath : path.IsCanonical) (hpolicy : state.cache.policy = .unbounded)
    (hruns : ∀ run ∈ site.runs tree references state,
      run.request.path? (site.setting tree) ≠ some path ∧ ¬run.AsksFor (site.setting tree) path)
    {entry : Cache.Entry} (hfind : state.cache.find? path = some entry) :
    (site.renderCounting tree references state).2.cache.find? path = some entry := by
  induction references generalizing state with
  | nil => exact hfind
  | cons reference rest ih =>
    obtain ⟨⟨hself, hbelow⟩, hrest⟩ := List.forall_mem_cons.1 hruns
    let run : Run := ⟨site.options.maxDepth, state, ⟨site.root, reference, [], []⟩⟩
    apply ih ((Run.policy_result (site.setting tree) run).trans hpolicy) hrest
    exact Run.find?_result_of_not_asksFor hpolicy hpath hself hbelow hfind

section Displaced

variable {fingerprint : Text} (hpath : path.IsCanonical)
  (hruns : ∀ run ∈ site.runs tree references state,
    run.request.path? (site.setting tree) ≠ some path ∧
      ∀ other ∈ run.below (site.setting tree), other.request.path? (site.setting tree) = some path →
        other.request.fingerprint ≠ fingerprint)

include hpath hruns

theorem hasNoEntryFor_renderCounting (h : Run.HasNoEntryFor path fingerprint state.cache) :
    Run.HasNoEntryFor path fingerprint (site.renderCounting tree references state).2.cache := by
  induction references generalizing state with
  | nil => exact h
  | cons reference rest ih =>
    obtain ⟨⟨hself, hbelow⟩, hrest⟩ := List.forall_mem_cons.1 hruns
    exact ih hrest (Run.hasNoEntryFor_result hpath hself hbelow h)

/-- Components that ask for a path with other fingerprints leave no entry for this one. -/
theorem hasNoEntryFor_renderCounting_of_asksFor
    (hread : (tree.read path).toOption.isSome = true)
    (h : ∃ run ∈ site.runs tree references state, run.AsksFor (site.setting tree) path) :
    Run.HasNoEntryFor path fingerprint (site.renderCounting tree references state).2.cache := by
  induction references generalizing state with
  | nil => simp [runs] at h
  | cons reference rest ih =>
    obtain ⟨⟨hself, hbelow⟩, hrest⟩ := List.forall_mem_cons.1 hruns
    obtain ⟨run, hmem, hasks⟩ := h
    rcases List.mem_cons.1 hmem with rfl | hmem
    · have hbehind := hasNoEntryFor_renderCounting hpath hrest
        (Run.hasNoEntryFor_result_of_asksFor hpath hself hbelow hread hasks)
      exact hbehind
    · exact ih hrest ⟨run, hmem, hasks⟩

end Displaced

end Counting

/-! ## What is served after warming -/

/-- The site gives the output of the entry at a path, calls no renderer and stays as it is. -/
def Serves (site : Site) (tree : FileTree) (reference path : Path) : Prop :=
  ∃ entry, site.cache.find? path = some entry ∧
    site.render tree (.one reference) [] = (entry.output, [], site)

section Serving

variable {site : Site} {tree : FileTree} {reference path : Path}

theorem serves_of_find?
    (hpath : resolve? tree site.options.extension site.root reference = some path)
    {entry : Cache.Entry} (hfind : site.cache.find? path = some entry)
    (hfresh : entry.isFresh tree site.cache.policy (tree.stamp path) (Cache.fingerprint [] []) =
      true) : site.Serves tree reference path := by
  refine ⟨entry, hfind, ?_⟩
  let request : Request := ⟨site.root, reference, [], []⟩
  have hnamed : request.path? (site.setting tree) = some path := hpath
  have hhit : (site.start.lookup (site.setting tree) path request).1 = some entry := by
    have hget := Cache.get_of_isFresh hfind hfresh
    exact congrArg Prod.fst hget
  have hrender := render_of_lookup hnamed hhit site.options.maxDepth
  simp only [render, renderTarget, renderComponent]
  rw [hrender]
  rfl

/-- A component that can be read and has no entry that is found calls a renderer. -/
theorem calls_render_ne_nil
    (hpath : resolve? tree site.options.extension site.root reference = some path)
    (hread : (tree.read path).toOption.isSome = true)
    (hnone : ∀ entry, site.cache.find? path = some entry →
      entry.fingerprint ≠ Cache.fingerprint [] []) :
    (site.render tree (.one reference) []).2.1 ≠ [] := by
  let request : Request := ⟨site.root, reference, [], []⟩
  obtain ⟨source, hsource⟩ : ∃ source, tree.read path = .ok source := by
    cases hread' : tree.read path with
    | ok source => exact ⟨source, rfl⟩
    | error error => simp [hread', Except.toOption] at hread
  have hreads : Reads (site.setting tree) site.start request path source := by
    refine ⟨hpath, ?_, hsource⟩
    by_contra hsome
    obtain ⟨entry, hhit⟩ := Option.ne_none_iff_exists'.1 hsome
    obtain ⟨hfind, hfresh⟩ := Cache.find?_of_get_eq_some hhit
    exact hnone entry hfind (isFresh_iff.1 hfresh).1.1.2
  have hbegun : (begun (site.setting tree) site.start request path source).calls <+:
      (childResults (site.setting tree) (childRenderer (site.setting tree) site.options.maxDepth)
        site.start request path source).2.calls :=
    calls_prefix_renderVisits (calls_prefix_childRenderer _ _) _ _ _
  have hrender := render_of_reads hreads site.options.maxDepth
  simp only [render, renderTarget, renderComponent]
  rw [hrender]
  intro hnil
  rw [(List.append_eq_nil_iff.1 hnil).1, List.prefix_nil] at hbegun
  simp [begun, State.filled] at hbegun

end Serving

section Components

variable {site : Site} {tree : FileTree} {before after : List Path} {reference path : Path}

/-- The components of a site come from different names. -/
theorem exists_names_of_components
    (hcomponents : site.components tree = before ++ reference :: after) :
    ∃ earlier names later,
      Discovery.names tree site.root site.options.extension = earlier ++ names :: later ∧
        reference = Text.joinWith ['/'] names ∧ after = later.map (Text.joinWith ['/']) := by
  obtain ⟨earlier, others, hnames, _, hothers⟩ := List.map_eq_append_iff.1 hcomponents
  obtain ⟨names, later, rfl, hreference, hafter⟩ := List.map_eq_cons_iff.1 hothers
  exact ⟨earlier, names, later, hnames, hreference.symm, hafter.symm⟩

theorem exists_of_mem_runs {references : List Path} {state : State} {run : Run}
    (h : run ∈ site.runs tree references state) :
    ∃ other ∈ references, run.request = ⟨site.root, other, [], []⟩ := by
  induction references generalizing state with
  | nil => simp [runs] at h
  | cons first rest ih =>
    rcases List.mem_cons.1 h with rfl | h
    · exact ⟨first, List.mem_cons_self, rfl⟩
    · obtain ⟨other, hother, hrequest⟩ := ih h
      exact ⟨other, List.mem_cons_of_mem _ hother, hrequest⟩

variable (hproper : tree.IsProper) (hroot : tree.isDirectory site.root = true)
  (hcomponents : site.components tree = before ++ reference :: after)

include hproper hroot hcomponents

/-- A component of a site has a path of its own, at which one reads what was discovered. -/
theorem exists_path_of_components :
    ∃ path, resolve? tree site.options.extension site.root reference = some path ∧
      (∀ other ∈ after, resolve? tree site.options.extension site.root other ≠ some path) ∧
      ∃ discovered ∈ Discovery.paths tree site.root site.options.extension,
        tree.read path = tree.read discovered := by
  obtain ⟨place, hlocate, hplace⟩ := Discovery.exists_locate_of_isDirectory hroot
  obtain ⟨earlier, names, later, hall, rfl, rfl⟩ := exists_names_of_components hcomponents
  have hmem : names ∈ Discovery.names tree site.root site.options.extension := by simp [hall]
  have hplaceNames : ∀ name ∈ place, IsName name := isName_of_locate hlocate
  have hisName {others : List Text}
      (hothers : others ∈ Discovery.names tree site.root site.options.extension) :
      ∀ name ∈ place ++ others, IsName name :=
    List.forall_mem_append.2 ⟨hplaceNames,
      (Discovery.exists_file_of_mem_names hproper hlocate hplace hothers).2.1⟩
  refine ⟨ofNames (place ++ names), resolve?_joinWith_of_mem_names hproper hlocate hplace hmem, ?_,
    Discovery.pathTo site.root names, List.mem_map_of_mem hmem, ?_⟩
  · intro other hother hresolve
    obtain ⟨others, hothers, rfl⟩ := List.mem_map.1 hother
    have hothersMem : others ∈ Discovery.names tree site.root site.options.extension := by
      simp [hall, hothers]
    rw [resolve?_joinWith_of_mem_names hproper hlocate hplace hothersMem] at hresolve
    have hsame := congrArg namesOf (Option.some.inj hresolve)
    rw [namesOf_ofNames (hisName hothersMem), namesOf_ofNames (hisName hmem)] at hsame
    have hnodup := Discovery.nodup_names hproper site.root site.options.extension
    rw [hall, List.nodup_append, List.nodup_cons] at hnodup
    exact hnodup.2.1.1 (List.append_cancel_left hsame ▸ hothers)
  · obtain ⟨_, _, content, modified, hfile⟩ :=
      Discovery.exists_file_of_mem_names hproper hlocate hplace hmem
    have hcanonical : tree.locate (ofNames (place ++ names)) = .ok (place ++ names) :=
      locate_ofNames (hisName hmem) (by simp [hfile])
    unfold FileTree.read
    rw [hcanonical, Discovery.locate_pathTo_of_mem_names hproper hlocate hplace hmem]

omit hproper hroot in
/-- What warming leaves is what the components behind a component leave. -/
theorem cache_warm : (site.warm tree).2.2.cache = (site.renderCounting tree after
    (site.renderCounting tree (before ++ [reference]) site.start).2).2.cache := by
  rw [← renderCounting_append, ← List.append_cons, ← hcomponents]
  rfl

theorem path?_ne_of_mem_runsBehind
    (hpath : resolve? tree site.options.extension site.root reference = some path) :
    ∀ run ∈ site.runsBehind tree (before ++ [reference]) after,
      run.request.path? (site.setting tree) ≠ some path := by
  intro run hrun
  obtain ⟨other, hother, hrequest⟩ := exists_of_mem_runs hrun
  obtain ⟨own, hown, hothers, _⟩ := exists_path_of_components hproper hroot hcomponents
  obtain rfl := Option.some.inj (hown.symm.trans hpath)
  rw [hrequest]
  exact hothers other hother

variable (hpolicy : site.cache.policy = .unbounded)
  (hpath : resolve? tree site.options.extension site.root reference = some path)
  (hread : (tree.read path).toOption.isSome = true)

include hpolicy hpath hread

/-- A component that nothing behind it asks for is served. -/
theorem serves_warm_of_not_asksFor
    (hnone : ∀ run ∈ site.runsBehind tree (before ++ [reference]) after,
      ¬run.AsksFor (site.setting tree) path) :
    (site.warm tree).2.2.Serves tree reference path := by
  let run : Run := ⟨site.options.maxDepth, (site.renderCounting tree before site.start).2,
    ⟨site.root, reference, [], []⟩⟩
  have hstart : run.state.cache.policy = .unbounded :=
    (policy_renderCounting site tree before site.start).trans hpolicy
  have hnamed : run.request.path? (site.setting tree) = some path := hpath
  obtain ⟨entry, hfind, hfresh⟩ := Run.exists_find?_result hnamed hread hstart
  have hbehind : (site.renderCounting tree (before ++ [reference]) site.start).2 =
      (run.result (site.setting tree)).2 := renderCounting_append site tree before [reference] _
  have hwarmed : (site.warm tree).2.2.cache.policy = .unbounded :=
    (policy_warm site tree).trans hpolicy
  have hleft : (site.warm tree).2.2.cache.find? path = some entry := by
    rw [cache_warm hcomponents]
    apply find?_renderCounting (isCanonical_of_resolve? hpath)
    · exact (policy_renderCounting site tree _ site.start).trans hpolicy
    · exact fun run hrun ↦
        ⟨path?_ne_of_mem_runsBehind hproper hroot hcomponents hpath run hrun, hnone run hrun⟩
    · rw [hbehind]
      exact hfind
  have hwarmedPath : resolve? tree (site.warm tree).2.2.options.extension
      (site.warm tree).2.2.root reference = some path := hpath
  apply serves_of_find? hwarmedPath hleft
  rw [hwarmed]
  exact hfresh

/-- A component that something behind it asks for is rendered again. -/
theorem calls_render_warm_ne_nil
    (hdigest : DigestsTellApart (Cache.inputText [] [] ::
      Run.inputTextsBelow (site.setting tree) (site.runsBehind tree (before ++ [reference]) after)))
    (hasks : ∃ run ∈ site.runsBehind tree (before ++ [reference]) after,
      run.AsksFor (site.setting tree) path) :
    ((site.warm tree).2.2.render tree (.one reference) []).2.1 ≠ [] := by
  have hdisplaced : Run.HasNoEntryFor path (Cache.fingerprint [] [])
      (site.warm tree).2.2.cache := by
    rw [cache_warm hcomponents]
    apply hasNoEntryFor_renderCounting_of_asksFor (isCanonical_of_resolve? hpath) _ hread hasks
    intro run hrun
    refine ⟨path?_ne_of_mem_runsBehind hproper hroot hcomponents hpath run hrun, ?_⟩
    intro other hother _ heq
    apply inputText_ne_of_mem_below hother
    apply hdigest _ (List.mem_cons_of_mem _ ?_) _ List.mem_cons_self heq
    exact List.mem_flatMap.2 ⟨run, hrun, List.mem_map_of_mem hother⟩
  have hwarmedPath : resolve? tree (site.warm tree).2.2.options.extension
      (site.warm tree).2.2.root reference = some path := hpath
  apply calls_render_ne_nil hwarmedPath hread
  exact hdisplaced ((policy_warm site tree).trans hpolicy)

end Components

/-- After warming, a discovered component that no component rendered behind it asks for as a child
is served from the cache, and one that is asked for is rendered again. -/
theorem serves_warm {site : Site} {tree : FileTree} (hpolicy : site.cache.policy = .unbounded)
    (hproper : tree.IsProper) (hroot : tree.isDirectory site.root = true)
    (hread : ∀ path ∈ Discovery.paths tree site.root site.options.extension,
      (tree.read path).toOption.isSome = true)
    {before after : List Path} {reference : Path}
    (hcomponents : site.components tree = before ++ reference :: after) :
    let warmed := (site.warm tree).2.2
    let behind := site.runsBehind tree (before ++ [reference]) after
    ∃ path, resolve? tree site.options.extension site.root reference = some path ∧
      ((∀ run ∈ behind, ¬run.AsksFor (site.setting tree) path) →
        warmed.Serves tree reference path) ∧
      (DigestsTellApart (Cache.inputText [] [] :: Run.inputTextsBelow (site.setting tree) behind) →
        (∃ run ∈ behind, run.AsksFor (site.setting tree) path) →
          (warmed.render tree (.one reference) []).2.1 ≠ []) := by
  intro warmed behind
  obtain ⟨path, hpath, _, discovered, hdiscovered, hsame⟩ :=
    exists_path_of_components hproper hroot hcomponents
  have hreadable : (tree.read path).toOption.isSome = true := hsame ▸ hread discovered hdiscovered
  exact ⟨path, hpath,
    serves_warm_of_not_asksFor hproper hroot hcomponents hpolicy hpath hreadable,
    calls_render_warm_ne_nil hproper hroot hcomponents hpolicy hpath hreadable⟩

/-- A card, a page with the card, and a tail. -/
def cardPageTail : FileTree :=
  let file (name content : String) (tree : FileTree) : FileTree :=
    tree.write ("/rain/".toList ++ name.toList) (.text content.toList) (some 1)
  file "tail.rain" "<template>T</template>"
    <| file "page.json" "\x7b\"components\":[\"card.rain\"]\x7d"
    <| file "page.rain" "<template><card></card></template>"
    <| file "card.rain" "<template>C</template>" .empty

def cardPageTailSite : Site := new "/rain".toList .default .default

theorem names_cardPageTail : Discovery.names cardPageTail "/rain".toList "rain".toList =
    [["card.rain".toList], ["page.rain".toList], ["tail.rain".toList]] :=
  Discovery.names_of_perm (by decide +kernel) (by decide +kernel)

theorem components_cardPageTail : cardPageTailSite.components cardPageTail =
    ["card.rain".toList, "page.rain".toList, "tail.rain".toList] := by
  have hcomponents : cardPageTailSite.components cardPageTail =
      (Discovery.names cardPageTail "/rain".toList "rain".toList).map (Text.joinWith ['/']) := rfl
  rw [hcomponents, names_cardPageTail]
  rfl

theorem isSome_read_cardPageTail : ∀ path ∈ Discovery.paths cardPageTail cardPageTailSite.root
    cardPageTailSite.options.extension, (cardPageTail.read path).toOption.isSome = true := by
  have hpaths : Discovery.paths cardPageTail cardPageTailSite.root
      cardPageTailSite.options.extension =
    (Discovery.names cardPageTail "/rain".toList "rain".toList).map
      (Discovery.pathTo "/rain".toList) := rfl
  rw [hpaths, names_cardPageTail]
  decide +kernel

theorem serves_warm_pageTail :
    let setting := cardPageTailSite.setting cardPageTail
    let behindCard := cardPageTailSite.runsBehind cardPageTail ["card.rain".toList]
      ["page.rain".toList, "tail.rain".toList]
    let behindPage := cardPageTailSite.runsBehind cardPageTail
      ["card.rain".toList, "page.rain".toList] ["tail.rain".toList]
    let warmed := (cardPageTailSite.warm cardPageTail).2.2
    cardPageTailSite.cache.policy = .unbounded ∧ cardPageTail.IsProper ∧
      cardPageTail.isDirectory cardPageTailSite.root = true ∧
      (∀ path ∈ Discovery.paths cardPageTail cardPageTailSite.root
        cardPageTailSite.options.extension, (cardPageTail.read path).toOption.isSome = true) ∧
      (∀ run ∈ behindPage, ¬run.AsksFor setting "/rain/page.rain".toList) ∧
      warmed.Serves cardPageTail "page.rain".toList "/rain/page.rain".toList ∧
      DigestsTellApart (Cache.inputText [] [] :: Run.inputTextsBelow setting behindCard) ∧
      (∃ run ∈ behindCard, run.AsksFor setting "/rain/card.rain".toList) ∧
      (warmed.render cardPageTail (.one "card.rain".toList) []).2.1 ≠ [] := by
  intro setting behindCard behindPage warmed
  have hpolicy : cardPageTailSite.cache.policy = .unbounded := by decide
  have hproper : cardPageTail.IsProper := by decide +kernel
  have hroot : cardPageTail.isDirectory cardPageTailSite.root = true := by decide +kernel
  have hread := isSome_read_cardPageTail
  have hpage : ∀ run ∈ behindPage, ¬run.AsksFor setting "/rain/page.rain".toList := by
    decide +kernel
  have hdigest : DigestsTellApart
      (Cache.inputText [] [] :: Run.inputTextsBelow setting behindCard) := by
    decide +kernel
  have hcard : ∃ run ∈ behindCard, run.AsksFor setting "/rain/card.rain".toList := by
    decide +kernel
  have hpageSplit : cardPageTailSite.components cardPageTail =
      ["card.rain".toList] ++ "page.rain".toList :: ["tail.rain".toList] := components_cardPageTail
  have hcardSplit : cardPageTailSite.components cardPageTail =
      [] ++ "card.rain".toList :: ["page.rain".toList, "tail.rain".toList] :=
    components_cardPageTail
  obtain ⟨page, hpagePath, hserves, _⟩ := serves_warm hpolicy hproper hroot hread hpageSplit
  obtain ⟨card, hcardPath, _, hcalls⟩ := serves_warm hpolicy hproper hroot hread hcardSplit
  have hpageEq : some page = some "/rain/page.rain".toList := by
    rw [← hpagePath]
    decide +kernel
  have hcardEq : some card = some "/rain/card.rain".toList := by
    rw [← hcardPath]
    decide +kernel
  obtain rfl := Option.some.inj hpageEq
  obtain rfl := Option.some.inj hcardEq
  exact ⟨hpolicy, hproper, hroot, hread, hpage, hserves hpage, hdigest, hcard, hcalls hdigest hcard⟩

/-- The page asks for the card behind the card's turn. Warming leaves an entry for the card, but not
the one that the card without data is served from. -/
theorem calls_render_card_warm :
    let warmed := (cardPageTailSite.warm cardPageTail).2.2
    cardPageTailSite.cache.policy = .unbounded ∧ cardPageTail.IsProper ∧
      cardPageTail.isDirectory cardPageTailSite.root = true ∧
      (∀ path ∈ Discovery.paths cardPageTail cardPageTailSite.root
        cardPageTailSite.options.extension, (cardPageTail.read path).toOption.isSome = true) ∧
      "card.rain".toList ∈ cardPageTailSite.components cardPageTail ∧
      warmed.cache.contains "/rain/card.rain".toList = true ∧
      (warmed.render cardPageTail (.one "card.rain".toList) []).2.1.map Call.kind =
        [.template, .script, .style] := by
  have hwarm : (cardPageTailSite.warm cardPageTail).2.2 =
      cardPageTailSite.resume (cardPageTailSite.renderCounting cardPageTail
        ["card.rain".toList, "page.rain".toList, "tail.rain".toList] cardPageTailSite.start).2 := by
    rw [warm, components_cardPageTail]
  refine ⟨by decide, by decide +kernel, by decide +kernel, isSome_read_cardPageTail, ?_⟩
  rw [hwarm, components_cardPageTail]
  decide +kernel

end Site

end ComponentMarkup

import ComponentMarkup.Proofs.Component.Childless
import ComponentMarkup.Proofs.Component.Exits
import ComponentMarkup.Proofs.Component.Given
import ComponentMarkup.Proofs.Component.Repeats

/-!
# What is recorded for the tags of a child

When a component file is rendered, an output is recorded for every tag of a child, under the text of
the tag. For a child without children of its own that shows one name, this is the value that the
name has among all that the child is given and has itself. It may have been taken from the cache, as
long as the entries there were made for the same child.
-/

namespace ComponentMarkup.Component

open Tag Text

/-! ## Recorded outputs -/

section Recorded

variable (setting : Setting) (depth : Nat) (state : State) (request : Request) (path : Path)
  (source : Text)

/-- The outputs of the children of a component file that is rendered, by the texts of their tags. -/
def recorded : Dict Text :=
  let draft := drafted setting state request path source
  (renderChildren setting (childRenderer setting depth) draft.page draft.components draft.html
    (begun setting state request path source)).1.outputs

theorem recorded_eq :
    recorded setting depth state request path source =
      outputsOf (drafted setting state request path source).visits
        (childResults setting (childRenderer setting depth) state request path source).1 := by
  rw [recorded]
  simp only [renderChildren_eq]
  rfl

end Recorded

section Rendering

variable {setting : Setting} {state : State} {request : Request} {path : Path} {source : Text}

/-- The recorded outputs are what is put in the places of the tags. -/
theorem output_render_of_reads (h : Reads setting state request path source) (depth : Nat) :
    (render setting depth state request).1.output =
      (drafted setting state request path source).output setting
        (recorded setting depth state request path source) := by
  rw [render_of_reads h, recorded_eq]
  rfl

/-- Under a property that reuse keeps, what is recorded are the outcomes of the tags. -/
theorem recorded_eq_map {host : Host} {policy : Cache.Policy} {among : Asking → Prop}
    {kept : Path → Cache.Entry → Prop}
    (hkept : KeptByReuse setting host policy Rendered.SameOutput among kept) {depth : Nat}
    (hamong : ∀ child ∈ (drafted setting state request path source).requests setting host,
      among ⟨depth, child⟩)
    (hstate : (begun setting state request path source).Keeps host policy kept) :
    recorded setting (depth + 1) state request path source =
      (drafted setting state request path source).visits.map fun visit ↦ (visit.tag.text,
        (outcomeTag setting host (childOutcome setting host (depth + 1))
          (drafted setting state request path source).page visit).output) := by
  have hshows : Shows host policy Rendered.SameOutput kept
      ((drafted setting state request path source).requests setting host)
      (childRenderer setting (depth + 1)) (childOutcome setting host (depth + 1)) :=
    fun child hchild _ hbefore ↦
      render_looks isObservation_sameOutput hkept (hamong child hchild) hbefore
  obtain ⟨hresults, -⟩ :=
    renderVisits_looks isObservation_sameOutput hshows (fun _ hvisit ↦ hvisit) hstate
  have houtputs := isObservation_sameOutput.outputsOf_eq
    (drafted setting state request path source).visits hresults
  rw [recorded_eq, ← outputsOf_map, ← houtputs]
  rfl

end Rendering

/-! ## Entries of one component -/

section Entries

variable {setting : Setting} {host : Host} {policy : Cache.Policy}
  {looks : Rendered → Rendered → Prop} {among : Asking → Prop}
  {kept : Path → Cache.Entry → Prop}

/-- Where one component is asked for, only its entries count. -/
theorem KeptByReuse.ofFile (h : KeptByReuse setting host policy looks among kept) {file : Path}
    (hfile : ∀ asking, among asking → asking.request.path? setting = some file) :
    KeptByReuse setting host policy looks among
      fun path entry ↦ Path.same path file = true → kept path entry where
  closed := h.closed
  use hentry hasking hpath hsame hfresh := by
    obtain rfl := Option.some.inj (hpath.symm.trans (hfile _ hasking))
    exact h.use (hentry hsame) hasking hpath hsame hfresh
  make hasking hdraft hpath hlooks _ := h.make hasking hdraft hpath hlooks

end Entries

/-! ## The value that is shown -/

/-- What a childless component is asked for again comes out the same, at whatever depth. -/
theorem IsChildless.repeatsAgree {tree : FileTree} {maxDepth : Nat} {file : Path} {content : Text}
    (h : IsChildless tree file content) {askings : List Asking}
    (hfile : ∀ asking ∈ askings,
      asking.request.path? ⟨tree, defaultUpTo maxDepth⟩ = some file) :
    RepeatsAgree ⟨tree, defaultUpTo maxDepth⟩ .default askings := by
  intro a ha b hb hrepeats
  let atDepth : Asking := ⟨b.depth, a.request⟩
  calc
    (a.outcome ⟨tree, defaultUpTo maxDepth⟩ .default).output =
        (atDepth.outcome ⟨tree, defaultUpTo maxDepth⟩ .default).output := by
      rw [Asking.outcome, Asking.outcome, h.output_eq (hfile a ha), h.output_eq (hfile a ha)]
    _ = _ := by rw [Asking.outcome_eq_of_repeats (a := atDepth) Host.isBare_default hrepeats rfl]

section Shown

variable {tree : FileTree} {maxDepth : Nat} {path file : Path} {state : State} {request : Request}
  {source : Text}

/-- Where nothing is registered, nothing but the entries is to be kept. -/
theorem keeps_of_default (hhost : state.host = .default) {kept : Path → Cache.Entry → Prop}
    (hentries : ∀ entry ∈ state.cache.entries, kept entry.1 entry.2) :
    state.Keeps .default state.cache.policy kept := by
  refine ⟨by rw [hhost], ?_, rfl, hentries⟩
  rw [hhost]
  exact Host.isBare_default.isSteady

theorem page_drafted (hhost : state.host = .default) :
    (drafted ⟨tree, defaultUpTo maxDepth⟩ state request path source).page =
      request.page .default tree path := by
  have hdata := draft_data ⟨tree, defaultUpTo maxDepth⟩ Host.isBare_default path request.data
    request.invocation source
  rw [drafted, hhost, Draft.page]
  exact congrArg (Page.mk (Path.parent path) · request.invocation) hdata

variable {tag : Text} {occurrence : Occurrence} {written : List Attributes.Form}
  {gap : Attributes.Gap}

/-- Entries of a childless component that were made for it are kept, where digests tell apart what
it was and is asked for. -/
theorem IsChildless.keptByReuse {content : Text} (h : IsChildless tree file content)
    (policy : Cache.Policy) {askings : List Asking}
    (hfile : ∀ asking ∈ askings,
      asking.request.path? ⟨tree, defaultUpTo maxDepth⟩ = some file)
    (hdigest : DigestsTellApart (inputTexts askings)) :
    KeptByReuse ⟨tree, defaultUpTo maxDepth⟩ .default policy Rendered.SameOutput (· ∈ askings)
      fun path entry ↦ Path.same path file = true →
        IsEntryOf ⟨tree, defaultUpTo maxDepth⟩ .default askings path entry := by
  refine KeptByReuse.ofFile (keptByReuse_isEntryOf policy ?_ hdigest (h.repeatsAgree hfile)) hfile
  intro depth request child hasking hchild
  rw [h.childRequests_eq (hfile _ hasking)] at hchild
  exact absurd hchild List.not_mem_nil

/-- Where the entries of the child were made for the child, and digests tell apart what it was and
is asked for, the outcome of every tag is recorded under its text. -/
theorem find?_recorded {content : Text} (hchild : HasOnlyChild tree path tag file content)
    (hhost : state.host = .default)
    (hreads : Reads ⟨tree, defaultUpTo maxDepth⟩ state request path source)
    {earlier : List Asking} (hearlier : ∀ asking ∈ earlier,
      asking.request.path? ⟨tree, defaultUpTo maxDepth⟩ = some file)
    (hcache : ∀ entry ∈ state.cache.entries, Path.same entry.1 file = true →
      IsEntryOf ⟨tree, defaultUpTo maxDepth⟩ .default earlier entry.1 entry.2)
    (hdigest : DigestsTellApart (inputTexts earlier ++
      (childRequests ⟨tree, defaultUpTo maxDepth⟩ .default request).map Request.inputText))
    (ho : occurrence ∈ occurrences .ignored tag
      (drafted ⟨tree, defaultUpTo maxDepth⟩ state request path source).html) (depth : Nat) :
    Dict.find? (recorded ⟨tree, defaultUpTo maxDepth⟩ (depth + 1) state request path source)
        occurrence.text =
      some (outcome ⟨tree, defaultUpTo maxDepth⟩ .default depth
        (childRequest ⟨tree, defaultUpTo maxDepth⟩ .default
          (drafted ⟨tree, defaultUpTo maxDepth⟩ state request path source).page
          occurrence file)).output := by
  let setting : Setting := ⟨tree, defaultUpTo maxDepth⟩
  let draft := drafted setting state request path source
  have hpath : draft.path = path := rfl
  have hcomponents : draft.components = Host.default.declared tree path := by
    rw [← hhost]
    exact draft_components _ _ _ _ _ _
  have hrequests : childRequests setting .default request = draft.requests setting .default := by
    rw [childRequests, draft?_of_read .default hreads.named hreads.read, ← hhost]
    rfl
  let askings := earlier ++ (draft.requests setting .default).map (Asking.mk depth)
  have hfile : ∀ asking ∈ askings, asking.request.path? setting = some file := by
    intro asking hasking
    rcases List.mem_append.1 hasking with hasking | hasking
    · exact hearlier asking hasking
    · obtain ⟨child, hmem, rfl⟩ := List.mem_map.1 hasking
      exact hchild.path?_of_mem_requests hpath hcomponents hmem
  have htexts : inputTexts askings =
      inputTexts earlier ++ (childRequests setting .default request).map Request.inputText := by
    rw [hrequests, inputTexts, List.map_append, List.map_map]
    rfl
  have hkept := hchild.childless.keptByReuse state.cache.policy hfile (htexts ▸ hdigest)
  let kept (path : Path) (entry : Cache.Entry) : Prop :=
    Path.same path file = true → IsEntryOf setting .default askings path entry
  have hentries : ∀ entry ∈ state.cache.entries, kept entry.1 entry.2 := by
    intro entry hentry hsame
    obtain ⟨asking, hasking, hmade⟩ := hcache entry hentry hsame
    exact ⟨asking, List.mem_append_left _ hasking, hmade⟩
  have hasked : ∀ child ∈ draft.requests setting .default, (⟨depth, child⟩ : Asking) ∈ askings :=
    fun child hmem ↦ List.mem_append_right _ (List.mem_map_of_mem hmem)
  have hbegun : (begun setting state request path source).Keeps .default state.cache.policy kept :=
    (keeps_of_default hhost hentries).begun request path source
  have hrecorded := recorded_eq_map hkept hasked hbegun
  obtain ⟨visit, hvisit, rfl⟩ := hchild.exists_visit hpath hcomponents ho
  have hresolve : resolve? tree (defaultUpTo maxDepth).extension draft.page.dir visit.file =
      some file := (hchild.of_mem_visits hpath hcomponents hvisit).2
  rw [hrecorded]
  apply Dict.find?_of_mem
  · rw [Dict.keys, List.map_map]
    exact nodup_firstVisits [] _
  · refine List.mem_map.2 ⟨visit, hvisit, ?_⟩
    have houtcome : outcomeTag setting .default (childOutcome setting .default (depth + 1))
        draft.page visit = outcome setting .default depth
          (childRequest setting .default draft.page visit.tag file) := by
      simp only [outcomeTag, setting, hresolve, childOutcome]
    rw [← houtcome]

/-- A child that shows one name is put in the place of its tag with the value of the name: the
inner text for the children, else what the tag says last, else what the parent has or was given if
the child declares it, else what the child has itself, and nothing else. No other name of the parent
is seen in the child. -/
theorem recorded_eq_value {name : Template.Surface.Name}
    (hname : name.text ∉ ["true".toList, "false".toList, "null".toList])
    (hchild : HasOnlyChild tree path tag file (Template.showing false name.text))
    (hhost : state.host = .default)
    (hreads : Reads ⟨tree, defaultUpTo maxDepth⟩ state request path source)
    {earlier : List Asking} (hearlier : ∀ asking ∈ earlier,
      asking.request.path? ⟨tree, defaultUpTo maxDepth⟩ = some file)
    (hcache : ∀ entry ∈ state.cache.entries, Path.same entry.1 file = true →
      IsEntryOf ⟨tree, defaultUpTo maxDepth⟩ .default earlier entry.1 entry.2)
    (hdigest : DigestsTellApart (inputTexts earlier ++
      (childRequests ⟨tree, defaultUpTo maxDepth⟩ .default request).map Request.inputText))
    (ho : occurrence ∈ occurrences .ignored tag
      (drafted ⟨tree, defaultUpTo maxDepth⟩ state request path source).html)
    (hattributes : occurrence.attributes = Attributes.Form.textOf written ++ gap.text)
    (depth : Nat) :
    let setting : Setting := ⟨tree, defaultUpTo maxDepth⟩
    let draft := drafted setting state request path source
    let outputs := recorded setting (depth + 1) state request path source
    let layers := layersOf .default tree (request.page .default tree path) file
      (written.map Attributes.Form.pair) occurrence
    let given := (childRequest setting .default draft.page occurrence file).data
    (render setting (depth + 1) state request).1.output = draft.output setting outputs ∧
      Dict.find? outputs occurrence.text =
        some (trim ((layers.value? name.text).getD .null).display) ∧
      ∀ key, Dict.find? (Host.default.model tree file given).1.data key = layers.value? key := by
  have hparse : Attributes.parse occurrence.attributes =
      Dict.settled (written.map Attributes.Form.pair) := by
    rw [hattributes, Attributes.Form.parse_textOf_append]
  have hgiven (key : Text) : Dict.find? (Host.default.model tree file
        (childRequest ⟨tree, defaultUpTo maxDepth⟩ .default
          (drafted ⟨tree, defaultUpTo maxDepth⟩ state request path source).page occurrence
          file).data).1.data key =
      (layersOf .default tree (request.page .default tree path) file
        (written.map Attributes.Form.pair) occurrence).value? key := by
    rw [page_drafted hhost]
    exact find?_model_childRequest ⟨tree, defaultUpTo maxDepth⟩ Host.isBare_default hparse file key
  refine ⟨output_render_of_reads hreads (depth + 1), ?_, hgiven⟩
  rw [find?_recorded hchild hhost hreads hearlier hcache hdigest ho depth,
    hchild.childless.output_eq (hchild.path?_childRequest _ _ _), Template.fill_showing hname,
    hgiven]
  rfl

end Shown

/-! ## A label from above -/

/-- A page with a card that shows its label. Both have data, and the card declares its label. -/
def labelledPage : FileTree :=
  let file (name content : String) (tree : FileTree) : FileTree :=
    tree.write ("/rain/".toList ++ name.toList) (.text content.toList) (some 1)
  file "page.rain" "<template><p><CARD size=\"a>b\" >in</CARD></p></template>"
    <| file "page.json" "\x7b\"components\":[\"card.rain\"],\"data\":\x7b\"label\":[1,null]\x7d\x7d"
    <| file "card.rain" "<template>\x7b\x7b\x7b label \x7d\x7d\x7d</template>"
    <| file "card.json" "\x7b\"props\":[\"label\",\"b\"],\"data\":\x7b\"label\":\"own\"\x7d\x7d" .empty

/-- The page below a component that has given it a label. -/
def labelledRequest : Request :=
  ⟨"/rain".toList, "page.rain".toList, [], [("label".toList, "above".toList)]⟩

def labelledState : State := ⟨.ofPolicy .unbounded, .default, []⟩

def labelledSource : Text := "<template><p><CARD size=\"a>b\" >in</CARD></p></template>".toList

def labelledTag : Occurrence where
  gap := []
  name := "CARD".toList
  attributes := " size=\"a>b\" ".toList
  ending := .closed "in".toList "</CARD>".toList

def sizeForm : Attributes.Form where
  gap := .space
  name := "size".toList
  assignment := some ⟨.none, .none,
    .quoted ⟨'"', "a>b".toList, Attributes.Quoted.quote_eq_double, by decide⟩⟩
  gap_ne_nil := Attributes.Gap.space_ne_nil
  name_ne_nil := by decide
  isName := List.all_eq_true.1 rfl

def labelName : Template.Surface.Name where
  first := 'l'
  rest := "abel".toList
  starts := rfl
  continues := List.all_eq_true.1 rfl

theorem recorded_eq_value_label :
    HasOnlyChild labelledPage "/rain/page.rain".toList "card".toList "/rain/card.rain".toList
        (Template.showing false labelName.text) ∧
      Reads ⟨labelledPage, defaultUpTo 64⟩ labelledState labelledRequest "/rain/page.rain".toList
        labelledSource ∧
      labelledTag ∈ occurrences .ignored "card".toList (drafted ⟨labelledPage, defaultUpTo 64⟩
        labelledState labelledRequest "/rain/page.rain".toList labelledSource).html ∧
      Dict.find? (recorded ⟨labelledPage, defaultUpTo 64⟩ 64 labelledState labelledRequest
        "/rain/page.rain".toList labelledSource) labelledTag.text = some "[1,null]".toList := by
  have hchild : HasOnlyChild labelledPage "/rain/page.rain".toList "card".toList
      "/rain/card.rain".toList (Template.showing false labelName.text) :=
    ⟨⟨"card.rain".toList, by decide +kernel, by decide +kernel⟩, by decide +kernel⟩
  have hreads : Reads ⟨labelledPage, defaultUpTo 64⟩ labelledState labelledRequest
      "/rain/page.rain".toList labelledSource := ⟨by decide +kernel, by decide +kernel, by rfl⟩
  have hdigest : DigestsTellApart (inputTexts [] ++
      (childRequests ⟨labelledPage, defaultUpTo 64⟩ .default labelledRequest).map
        Request.inputText) := by
    decide +kernel
  have htag : labelledTag ∈ occurrences .ignored "card".toList
      (drafted ⟨labelledPage, defaultUpTo 64⟩ labelledState labelledRequest
        "/rain/page.rain".toList labelledSource).html := by
    decide +kernel
  have hattributes : labelledTag.attributes =
      Attributes.Form.textOf [sizeForm] ++ Attributes.Gap.space.text := by
    decide
  obtain ⟨-, hshown, -⟩ := recorded_eq_value (by decide) hchild rfl hreads
    (List.forall_mem_nil _) (List.forall_mem_nil _) hdigest htag hattributes 63
  exact ⟨hchild, hreads, htag, hshown.trans (by decide +kernel)⟩

end ComponentMarkup.Component

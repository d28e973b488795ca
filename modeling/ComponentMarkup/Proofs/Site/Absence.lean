import ComponentMarkup.Proofs.FileTree.EmptyFile
import ComponentMarkup.Proofs.Site.InStep

/-!
# What is absent and what is empty

Whatever is absent comes out like an empty file in its place: a component that is asked for, the
index of a directory, a child, a sidecar, and the source of a segment. So an empty file that is
created where nothing was changes no output, as long as references are relative, templates are
wrapped for no other reason than their own styles, and all entries of the cache are kept.
-/

namespace ComponentMarkup

open ComponentMarkup.Path Component FileTree

namespace Component

/-- References to children and to sources of segments are relative. -/
structure Asking.IsRelative (setting : Setting) (host : Host) (asking : Asking) : Prop where
  references : ∀ draft ∈ draft? setting host asking.request, ∀ visit ∈ draft.visits,
    isAbsolute visit.file = false
  sources : ∀ path ∈ asking.request.path? setting, ∀ source ∈ (setting.tree.read path).toOption,
    ∀ src ∈ Segments.localSources source, isAbsolute src = false

instance (setting : Setting) (host : Host) (asking : Asking) :
    Decidable (asking.IsRelative setting host) :=
  decidable_of_iff
    ((∀ draft ∈ draft? setting host asking.request, ∀ visit ∈ draft.visits,
        isAbsolute visit.file = false) ∧
      ∀ path ∈ asking.request.path? setting, ∀ source ∈ (setting.tree.read path).toOption,
        ∀ src ∈ Segments.localSources source, isAbsolute src = false)
    ⟨fun ⟨h₁, h₂⟩ ↦ ⟨h₁, h₂⟩, fun h ↦ ⟨h.references, h.sources⟩⟩

/-- A file under its canonical path, beside an empty file that is added. -/
structure IsOldFile (tree : FileTree) (p q : Path) : Prop where
  eq : p = q
  canonical : p.IsCanonical
  file : tree.isFile p = true

section Matching

variable {a b : FileTree} {names : List Text} (h : AddsEmptyFile a b names)

include h

theorem meets_of_addsEmptyFile (extension : Text) (dir : Path) {reference : Path}
    (hrelative : isAbsolute reference = false) :
    Meets (IsOldFile a) (Path.same · (ofNames names)) (resolve? a extension dir reference)
      (resolve? b extension dir reference) := by
  rcases h.resolve?_cases extension dir hrelative with hsame | ⟨hnone, hnew⟩
  · rw [hsame]
    cases hpath : resolve? a extension dir reference with
    | none => exact .none
    | some path => exact .twin ⟨rfl, isCanonical_of_resolve? hpath, isFile_of_resolve? hpath⟩
  · rw [hnone, hnew]
    exact .blank (decide_eq_true rfl)

theorem definition?_of_addsEmptyFile {host : Host} (hbare : host.IsBare) (path : Path) :
    host.definition? a path = host.definition? b path := by
  rw [hbare.definition?_eq, hbare.definition?_eq, h.textOf_eq]

/-- The path of a file that was there is not that of the new file. -/
theorem IsOldFile.same_eq_false {p q : Path} (hold : IsOldFile a p q)
    (hnames : ∀ name ∈ names, IsName name) : Path.same q (ofNames names) = false := by
  rw [Bool.eq_false_iff]
  intro hsame
  have hcanonical := hold.canonical
  rw [hold.eq] at hcanonical
  have hpath := hcanonical.eq_of_same ⟨names, rfl, hnames⟩ hsame
  obtain ⟨content, modified, hsight⟩ := isFile_iff.1 hold.file
  rw [hold.eq, hpath, sight_find?_ofNames a hnames, h.absent] at hsight
  simp at hsight

/-- A file that was there is read as before. -/
theorem IsOldFile.read_eq {p q : Path} (hold : IsOldFile a p q) :
    (b.read q).toOption = (a.read p).toOption := by
  rw [← hold.eq]
  rcases h.locate_cases p with ⟨hnone, _⟩ | ⟨_, hsight⟩
  · have hfile := hold.file
    simp [FileTree.isFile, hnone] at hfile
  · exact toOption_read_of_sight_eq hsight

/-- A component file that was there comes to the page it came to. -/
theorem draft_of_addsEmptyFile {options : Options} {host : Host} (hbare : host.IsBare) {path : Path}
    {source : Text} (hrelative : ∀ src ∈ Segments.localSources source, isAbsolute src = false)
    (data : Data) (invocation : Attributes) :
    Draft.SamePage (draft ⟨a, options⟩ host path data invocation source)
      (draft ⟨b, options⟩ host path data invocation source) := by
  refine draft_samePage ?_ (definition?_of_addsEmptyFile h hbare path) (fun _ ↦ rfl) data invocation
  intro kind
  apply Segment.extract_sameText
  intro src hsrc
  have hlocal := hrelative src (Segments.localSource?_mem hsrc)
  rw [Reference.path_of_relative hlocal, Reference.path_of_relative hlocal, h.textOf_eq]

theorem matching_of_addsEmptyFile (hnames : ∀ name ∈ names, IsName name) {options : Options}
    (hscoped : options.isScoped = false) (htemplate : options.isTemplateScoped = false) {host : Host}
    (hbare : host.IsBare) {among : Asking → Prop}
    (hclosed : ∀ {depth request child}, among ⟨depth + 1, request⟩ →
      child ∈ childRequests ⟨a, options⟩ host request → among ⟨depth, child⟩)
    (hrelative : ∀ {asking}, among asking → asking.IsRelative ⟨a, options⟩ host) :
    Matching a b options host among (IsOldFile a) (Path.same · (ofNames names)) where
  bare := hbare
  closed := hclosed
  canonical hold := ⟨hold.canonical, hold.eq ▸ hold.canonical⟩
  unique hold hother := by rw [hold.eq, hother.eq]
  blank_congr hsame := by
    have hsteps : steps _ = steps _ := of_decide_eq_true hsame
    simp only [Path.same, hsteps]
  twin_not_blank hold := hold.same_eq_false h hnames
  props hold := by
    rw [Host.props, definition?_of_addsEmptyFile h hbare, hold.eq, Host.props]
  drafts := by
    intro asking p q hamong hpath hold
    rw [readDraft?, readDraft?]
    dsimp only
    rw [hold.read_eq h]
    cases hread : (a.read p).toOption with
    | none => exact .none
    | some source =>
      obtain rfl := hold.eq
      exact .some (draft_of_addsEmptyFile h hbare
        ((hrelative hamong).sources p hpath source hread) _ _)
  visits := by
    intro asking draft q visit hamong hdraft hold hvisit
    rw [← hold.eq]
    exact meets_of_addsEmptyFile h _ _ ((hrelative hamong).references draft hdraft visit hvisit)
  empty := by
    intro q data invocation hblank hcanonical
    obtain ⟨modified, hempty⟩ := h.empty
    have hpath : q = ofNames names := hcanonical.eq_of_same ⟨names, rfl, hnames⟩ hblank
    have hread : b.read q = .ok [] := by
      rw [hpath]
      exact read_eq_ok_iff.2 ⟨modified, by rw [sight_find?_ofNames b hnames, hempty]⟩
    refine ⟨draft ⟨b, options⟩ host q data invocation [], ?_, draft_isEmpty hscoped htemplate _ _ _ _⟩
    simp [readDraft?, hread, Except.toOption]

end Matching

end Component

namespace Site

/-- Creating an empty file where nothing was changes no output. -/
theorem render_write_empty {tree : FileTree} {root path : Path} {options : Options}
    (hpolicy : options.cache.policy = .unbounded) (hscoped : options.isScoped = false)
    (htemplate : options.isTemplateScoped = false) {target : Target} {data : Data}
    (htarget : ∀ request ∈ (new root options .default).requests target data,
      isAbsolute request.reference = false)
    (hrelative : ∀ asking ∈ (new root options .default).asked tree target data,
      asking.IsRelative ⟨tree, options⟩ .default)
    (hpath : path.IsCanonical) (habsent : tree.find? path = none)
    (hparent : tree.isDirectory (parent path) = true) (modified : Stamp) :
    ((new root options .default).render (tree.write path (.text []) modified) target data).1 =
      ((new root options .default).render tree target data).1 := by
  have hadds := addsEmptyFile_write hpath habsent hparent modified
  have hnames : ∀ name ∈ namesOf path, IsName name := by
    obtain ⟨names, rfl, hnames⟩ := hpath
    rw [namesOf_ofNames hnames]
    exact hnames
  have hmatch : Matching tree (tree.write path (.text []) modified) options .default
      (· ∈ (new root options .default).asked tree target data) (IsOldFile tree)
      (Path.same · (ofNames (namesOf path))) :=
    matching_of_addsEmptyFile hadds hnames hscoped htemplate (Host.isBare_ofExtension _)
      (fun h hchild ↦ mem_asked_of_childRequests (new root options .default) h hchild)
      (hrelative _ ·)
  apply render_new_eq_of_matching hmatch (Or.inl hpolicy)
  intro request hrequest
  refine ⟨mem_asked_of_requests (new root options .default) tree hrequest, ?_⟩
  have hdir : request.dir = root := dir_of_mem_requests hrequest
  rw [← hdir]
  exact meets_of_addsEmptyFile hadds options.extension request.dir (htarget request hrequest)

/-- A page with a list, whose card is not there, and with a script whose source is not there. -/
def listWithoutCard : FileTree :=
  let file (name content : String) (tree : FileTree) : FileTree :=
    tree.write ("/rain/".toList ++ name.toList) (.text content.toList) (some 1)
  file "page.rain" "<template>[<list></list>]</template><script src=\"page.js\"></script>"
    <| file "page.json" "\x7b\"components\":[\"list.rain\"]\x7d"
    <| file "list.rain" "<template>(<card></card>)</template>"
    <| file "list.json" "\x7b\"components\":[\"card.rain\"]\x7d" .empty

theorem render_emptyCard :
    let site := new "/rain".toList .default .default
    let target : Target := .many ["page.rain".toList, "card.rain".toList]
    Options.default.cache.policy = .unbounded ∧
      listWithoutCard.exists? "/rain/card.rain".toList = false ∧
      listWithoutCard.isDirectory (parent "/rain/card.rain".toList) = true ∧
      (∀ asking ∈ site.asked listWithoutCard target [],
        asking.IsRelative ⟨listWithoutCard, .default⟩ .default) ∧
      (site.render (listWithoutCard.write "/rain/card.rain".toList (.text []) (some 2)) target []).1 =
        (site.render listWithoutCard target []).1 ∧
      (site.render listWithoutCard target []).1 = "[()]\n\n".toList := by
  intro site target
  have htarget : ∀ request ∈ site.requests target [], isAbsolute request.reference = false := by
    decide +kernel
  have hrelative : ∀ asking ∈ site.asked listWithoutCard target [],
      asking.IsRelative ⟨listWithoutCard, .default⟩ .default := by
    decide +kernel
  have hcanonical : (listWithoutCard.write "/rain/card.rain".toList (.text []) (some 2)).canonical?
      "/rain/card.rain".toList = some "/rain/card.rain".toList := by
    decide +kernel
  have hpath := isCanonical_of_canonical? hcanonical
  have hexists : listWithoutCard.exists? "/rain/card.rain".toList = false := by decide +kernel
  have habsent : listWithoutCard.find? "/rain/card.rain".toList = none := by
    simpa [exists?] using hexists
  have hparent : listWithoutCard.isDirectory (parent "/rain/card.rain".toList) = true := by
    decide +kernel
  refine ⟨rfl, hexists, hparent, hrelative, ?_, by decide +kernel⟩
  exact render_write_empty rfl rfl rfl htarget hrelative hpath habsent hparent (some 2)

end Site

end ComponentMarkup

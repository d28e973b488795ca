import ComponentMarkup.Proofs.FileTree.Copy
import ComponentMarkup.Proofs.FileTree.Extension
import ComponentMarkup.Proofs.Site.InStep

/-!
# Sites in another place

A component finds its children, its sidecar and the sources of its segments from the directory that
it stands in. So a site whose references all stay below its root comes out the same from a copy of
its root in any other place, as long as nothing is scoped: an id is made from the path of the
component.
-/

namespace ComponentMarkup

open ComponentMarkup.Path Component FileTree

namespace Component

/-- References to children and to sources of segments stay inside a place, and the style is not
scoped. -/
structure Asking.IsLocal (setting : Setting) (host : Host) (place : List Text) (asking : Asking) :
    Prop where
  references : ∀ draft ∈ draft? setting host asking.request, ∀ visit ∈ draft.visits,
    visit.file.IsInside (depthBelow place draft.path)
  sources : ∀ path ∈ asking.request.path? setting, ∀ source ∈ (setting.tree.read path).toOption,
    ∀ src ∈ Segments.localSources source, src.IsInside (depthBelow place path)
  unscoped : ∀ path ∈ asking.request.path? setting, ∀ source ∈ (setting.tree.read path).toOption,
    (Segment.extract setting.tree (parent path) source .style).isScoped = false

instance (setting : Setting) (host : Host) (place : List Text) (asking : Asking) :
    Decidable (asking.IsLocal setting host place) :=
  decidable_of_iff
    ((∀ draft ∈ draft? setting host asking.request, ∀ visit ∈ draft.visits,
        visit.file.IsInside (depthBelow place draft.path)) ∧
      (∀ path ∈ asking.request.path? setting, ∀ source ∈ (setting.tree.read path).toOption,
        ∀ src ∈ Segments.localSources source, src.IsInside (depthBelow place path)) ∧
      ∀ path ∈ asking.request.path? setting, ∀ source ∈ (setting.tree.read path).toOption,
        (Segment.extract setting.tree (parent path) source .style).isScoped = false)
    ⟨fun ⟨h₁, h₂, h₃⟩ ↦ ⟨h₁, h₂, h₃⟩, fun h ↦ ⟨h.references, h.sources, h.unscoped⟩⟩

section Copy

variable {a b : FileTree} {place other : List Text} (h : IsCopy a b place other)

include h

/-- References that stay inside lead to the same file of a copy, or to none in both. -/
theorem meets_of_isCopy {extension : Text} (hindex : (indexName extension).IsInside 0)
    {below : List Text} {dir twin reference : Path}
    (hdir : SameDirectory a b place other below dir twin)
    (hinside : reference.IsInside below.length) :
    Meets (fun p q ↦ ∃ below, MovedFile a place other below p q) (fun _ ↦ false)
      (resolve? a extension dir reference) (resolve? b extension twin reference) := by
  have hfile {p q : Path} (hland : LandsAlike place other (a.locate p) (b.locate q)) :
      Meets (fun p q ↦ ∃ below, MovedFile a place other below p q) (fun _ ↦ false)
        (if a.isFile p then a.canonical? p else none)
        (if b.isFile q then b.canonical? q else none) := by
    rw [← h.isFile_eq hland]
    cases hisFile : a.isFile p with
    | false => exact .none
    | true =>
      obtain ⟨content, modified, hsight⟩ := isFile_iff.1 hisFile
      generalize hp : a.locate p = first at hland
      generalize hq : b.locate q = second at hland
      cases hland with
      | error error => simp [find?_of_locate_error hp] at hsight
      | ok found =>
        rw [sight_of_locate hp] at hsight
        rw [canonical?, hp, canonical?, hq]
        exact .twin ⟨found, rfl, rfl, isName_of_locate hp, isName_of_locate hq, content, modified,
          hsight⟩
  have hland := h.join_alike hdir hinside
  unfold resolve?
  simp only [Reference.path_of_relative hinside.relative, ← h.isDirectory_eq hland]
  cases hdirectory : a.isDirectory (Path.join dir reference) with
  | false => exact hfile hland
  | true =>
    generalize hp : a.locate (Path.join dir reference) = first at hland
    generalize hq : b.locate (Path.join twin reference) = second at hland
    have hsight := isDirectory_iff.1 hdirectory
    cases hland with
    | error error => simp [find?_of_locate_error hp] at hsight
    | ok found =>
      rw [sight_of_locate hp] at hsight
      exact hfile (h.join_alike ⟨hp, hq, hsight⟩ (hindex.mono (Nat.zero_le _)))

section Moved

variable {below : List Text} {p q : Path} (hmoved : MovedFile a place other below p q)

include hmoved

/-- A component declares the same in a copy. -/
theorem definition?_of_isCopy {host : Host} (hbare : host.IsBare) (hextension : '/' ∉ host.extension) :
    host.definition? a p = host.definition? b q := by
  obtain ⟨front, name, rfl, hdir⟩ := h.exists_directory hmoved
  obtain ⟨rfl, rfl, hnames, hothers, _⟩ := hmoved
  rw [← List.append_assoc] at hnames hothers hdir ⊢
  have hname : IsName name := hnames name (by simp)
  have hfront : ∀ n ∈ place ++ front, IsName n := fun n hn ↦ hnames n (List.mem_append_left _ hn)
  have hother : ∀ n ∈ other ++ front, IsName n := fun n hn ↦ hothers n (List.mem_append_left _ hn)
  obtain ⟨piece, hpiece, hsidecar⟩ := Host.sidecar_ofNames hextension hname
  have htext : a.textOf (ofNames (place ++ front ++ [piece])) =
      b.textOf (ofNames (other ++ front ++ [piece])) := by
    have hjoin := h.textOf_join_eq hdir hpiece
    rwa [parent_ofNames _ hname.not_slash, ← List.append_assoc, parent_ofNames _ hname.not_slash,
      join_ofNames hfront hpiece, join_ofNames hother hpiece] at hjoin
  rw [hbare.definition?_eq, hbare.definition?_eq, ← List.append_assoc, hsidecar, hsidecar,
    same_ofNames_concat hfront hpiece hname.not_slash,
    same_ofNames_concat hother hpiece hname.not_slash, htext]

/-- A component file comes to the same page in a copy. -/
theorem draft_of_isCopy {options : Options} {host : Host} (hbare : host.IsBare)
    (hextension : '/' ∉ host.extension) {source : Text}
    (hinside : ∀ src ∈ Segments.localSources source, src.IsInside (depthBelow place p))
    (hscoped : isScopedBy options (Segment.extract a (parent p) source .style) = false)
    (data : Data) (invocation : Attributes) :
    Draft.SamePage (draft ⟨a, options⟩ host p data invocation source)
      (draft ⟨b, options⟩ host q data invocation source) := by
  obtain ⟨front, name, hbelow, hdir⟩ := h.exists_directory hmoved
  refine draft_samePage ?_ (definition?_of_isCopy h hmoved hbare hextension)
    (fun hid ↦ absurd hid (by simp [hscoped])) data invocation
  intro kind
  apply Segment.extract_sameText
  intro src hsrc
  have hlocal := hinside src (Segments.localSource?_mem hsrc)
  rw [hmoved.depthBelow_eq hbelow] at hlocal
  rw [Reference.path_of_relative hlocal.relative, Reference.path_of_relative hlocal.relative]
  exact h.textOf_eq (h.join_alike hdir hlocal)

end Moved

theorem matching_of_isCopy {options : Options} (hscoped : options.isScoped = false)
    (htemplate : options.isTemplateScoped = false)
    (hindex : (indexName options.extension).IsInside 0) {host : Host} (hbare : host.IsBare)
    (hextension : '/' ∉ host.extension) {among : Asking → Prop}
    (hclosed : ∀ {depth request child}, among ⟨depth + 1, request⟩ →
      child ∈ childRequests ⟨a, options⟩ host request → among ⟨depth, child⟩)
    (hlocal : ∀ {asking}, among asking → asking.IsLocal ⟨a, options⟩ host place) :
    Matching a b options host among (fun p q ↦ ∃ below, MovedFile a place other below p q)
      (fun _ ↦ false) where
  bare := hbare
  closed := hclosed
  canonical := by
    rintro p q ⟨below, hmoved⟩
    exact ⟨⟨_, hmoved.here, hmoved.names⟩, ⟨_, hmoved.there, hmoved.otherNames⟩⟩
  unique := by
    rintro p q x y ⟨below, hmoved⟩ ⟨others, hother⟩
    exact hmoved.eq_iff hother
  blank_congr _ := rfl
  twin_not_blank _ := rfl
  props := by
    rintro p q ⟨below, hmoved⟩
    rw [Host.props, definition?_of_isCopy h hmoved hbare hextension, Host.props]
  drafts := by
    rintro asking p q hamong hpath ⟨below, hmoved⟩
    rw [readDraft?, readDraft?]
    dsimp only
    rw [← h.toOption_read_eq (h.locate_moved hmoved)]
    cases hread : (a.read p).toOption with
    | none => exact .none
    | some source =>
      have hasking := hlocal hamong
      have hstyle : isScopedBy options (Segment.extract a (parent p) source .style) = false := by
        simp [isScopedBy, hscoped, htemplate, hasking.unscoped p hpath source hread]
      exact .some (draft_of_isCopy h hmoved hbare hextension
        (hasking.sources p hpath source hread) hstyle _ _)
  visits := by
    rintro asking draft q visit hamong hdraft ⟨below, hmoved⟩ hvisit
    obtain ⟨front, name, hbelow, hdir⟩ := h.exists_directory hmoved
    have hinside := (hlocal hamong).references draft hdraft visit hvisit
    rw [hmoved.depthBelow_eq hbelow] at hinside
    exact meets_of_isCopy h hindex hdir hinside
  empty _ _ hblank := by simp at hblank

end Copy

end Component

namespace Site

/-- A site comes out the same from a copy of its root in any other place. -/
theorem render_of_isCopy {a b : FileTree} {root other : Path} {place elsewhere : List Text}
    (hroot : a.locate root = .ok place) (hother : b.locate other = .ok elsewhere)
    (hcopy : IsCopy a b place elsewhere) {options : Options} (hscoped : options.isScoped = false)
    (htemplate : options.isTemplateScoped = false)
    (hindex : (indexName options.extension).IsInside 0) {target : Target} {data : Data}
    (htarget : ∀ request ∈ (new root options .default).requests target data,
      request.reference.IsInside 0)
    (hlocal : ∀ asking ∈ (new root options .default).asked a target data,
      asking.IsLocal ⟨a, options⟩ .default place) :
    ((new other options .default).render b target data).1 =
      ((new root options .default).render a target data).1 := by
  have hmatch : Matching a b options .default
      (· ∈ (new root options .default).asked a target data)
      (fun p q ↦ ∃ below, MovedFile a place elsewhere below p q) (fun _ ↦ false) :=
    matching_of_isCopy hcopy hscoped htemplate hindex (Host.isBare_ofExtension _) (by decide)
      (fun h hchild ↦ mem_asked_of_childRequests (new root options .default) h hchild)
      (hlocal _ ·)
  apply render_new_eq_of_matching hmatch (Or.inr fun _ ↦ rfl)
  intro request hrequest
  refine ⟨mem_asked_of_requests (new root options .default) a hrequest, ?_⟩
  have hdir : request.dir = root := dir_of_mem_requests hrequest
  have htop : SameDirectory a b place elsewhere [] request.dir other := by
    rw [hdir]
    exact ⟨by rw [hroot, List.append_nil], by rw [hother, List.append_nil],
      by rw [List.append_nil, hcopy.directory]⟩
  exact meets_of_isCopy hcopy hindex htop (htarget request hrequest)

/-- A page with a list in a directory of its own, and a card that the list refers to upwards. -/
def gallery : List (Text × Node) :=
  let file (name content : String) : Text × Node :=
    (name.toList, .file (.text content.toList) (some 1))
  [file "page.rain" "<template>[<lists></lists>]</template>",
    file "page.json" "\x7b\"components\":[\"lists\"]\x7d",
    ("lists".toList, .directory
      [file "index.rain" "<template>(<card></card>)</template>",
        file "index.json" "\x7b\"components\":[\"../card.rain\"]\x7d"]),
    file "card.rain" "<template src=\"parts/card.html\"></template>",
    file "card.json" "\x7b\"data\":\x7b\"title\":\"Card\"\x7d\x7d",
    ("parts".toList, .directory [file "card.html" "\x7b\x7b title \x7d\x7d"])]

theorem render_gallery :
    let here : FileTree := ⟨[("rain".toList, .directory gallery)], fun _ ↦ some 1⟩
    let there : FileTree :=
      ⟨[("srv".toList, .directory [("www".toList, .directory gallery)])], fun _ ↦ some 2⟩
    let site := new "/rain".toList .default .default
    let target : Target := .one "page.rain".toList
    (∀ asking ∈ site.asked here target [],
        asking.IsLocal ⟨here, .default⟩ .default ["rain".toList]) ∧
      ((new "/srv/www".toList .default .default).render there target []).1 =
        (site.render here target []).1 ∧
      (site.render here target []).1 = "[(Card)]".toList := by
  intro here there site target
  have hlocal : ∀ asking ∈ site.asked here target [],
      asking.IsLocal ⟨here, .default⟩ .default ["rain".toList] := by
    decide +kernel
  have hcopy : IsCopy here there ["rain".toList] ["srv".toList, "www".toList] :=
    isCopy_of_node?_eq rfl rfl
  have hroot : here.locate "/rain".toList = .ok ["rain".toList] := by rfl
  have hother : there.locate "/srv/www".toList = .ok ["srv".toList, "www".toList] := by rfl
  have hindex : (indexName Options.default.extension).IsInside 0 := by decide +kernel
  have htarget : ∀ request ∈ site.requests target [], request.reference.IsInside 0 := by
    decide +kernel
  refine ⟨hlocal, ?_, by decide +kernel⟩
  exact render_of_isCopy hroot hother hcopy rfl rfl hindex htarget hlocal

end Site

end ComponentMarkup

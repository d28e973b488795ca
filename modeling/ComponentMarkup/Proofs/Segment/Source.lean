import ComponentMarkup.Proofs.FileTree.Walk
import ComponentMarkup.Segment

/-!
# The files that segments come from

A tag without inner text may name a file by its `src`. If that is no remote reference, the segment
has the text of the file, the `src` is taken away and the file is remembered. Inner text of nothing
but white space counts as inner text here, so such a tag keeps its `src` and its file is not read.
-/

namespace ComponentMarkup

open Text

namespace Segment

/-- The tag that a segment of this kind is read from. -/
def tag? (source : Text) (kind : SegmentKind) : Option Tag.Occurrence :=
  (Tag.occurrences .ignored kind.tagName source).head?

/-- The `src` of attributes that name a file by it. -/
def localSrc? (attributes : Attributes) : Option Text :=
  (Dict.find? attributes srcName).filter fun src ↦ !Reference.isRemote src

/-- The file that a segment of this kind takes its content from, as it is referred to. -/
def localSource? (source : Text) (kind : SegmentKind) : Option Path :=
  match Tag.occurrences .ignored kind.tagName source with
  | [] => none
  | occurrence :: _ =>
    if !occurrence.innerText.isEmpty then none
    else (Dict.find? (Attributes.parse occurrence.attributes) srcName).filter
      fun src ↦ !Reference.isRemote src

end Segment

/-- The files that the segments of a component file take their contents from. -/
def Segments.localSources (source : Text) : List Path :=
  SegmentKind.all.filterMap (Segment.localSource? source)

def Segments.get (segments : Segments) : SegmentKind → Segment
  | .template => segments.template
  | .script => segments.script
  | .style => segments.style

theorem Segments.get_extract (tree : FileTree) (dir : Path) (source : Text) (kind : SegmentKind) :
    (extract tree dir source).get kind = Segment.extract tree dir source kind := by
  cases kind <;> rfl

namespace Segment

variable {tree : FileTree} {dir : Path} {attributes : Attributes} {inner src : Text}

/-! ## Loading -/

theorem mem_localSrc?_iff : src ∈ localSrc? attributes ↔
    Dict.find? attributes srcName = some src ∧ Reference.isRemote src = false := by
  simp [localSrc?, Option.filter_eq_some_iff]

theorem load_of_ne_nil (h : inner ≠ []) :
    load tree dir attributes inner = ⟨inner, attributes, false, none⟩ := by
  rw [load, if_pos (by simpa using h)]

theorem load_nil_of_localSrc?_eq_none (h : localSrc? attributes = none) :
    load tree dir attributes [] = ⟨[], attributes, false, none⟩ := by
  cases hfind : Dict.find? attributes srcName with
  | none => simp [load, hfind]
  | some src =>
    have hremote : Reference.isRemote src = true := by
      simpa [localSrc?, hfind, Option.filter] using h
    simp [load, hfind, hremote]

/-- What stands in another file is read from there. -/
theorem load_nil_of_mem_localSrc? (h : src ∈ localSrc? attributes) :
    load tree dir attributes [] =
      ⟨tree.textOf (Reference.path tree dir src), Dict.erase attributes srcName, false,
        some (Reference.path tree dir src)⟩ := by
  obtain ⟨hfind, hremote⟩ := mem_localSrc?_iff.1 h
  simp only [load, List.isEmpty_nil, hfind, hremote, Bool.not_true, Bool.false_eq_true, if_false]
  rw [FileTree.textOf]
  cases tree.read (Reference.path tree dir src) <;> rfl

section Scoped

variable (segment : Segment)

@[simp] theorem content_markScoped : segment.markScoped.content = segment.content := by
  unfold markScoped
  split <;> rfl

@[simp] theorem source_markScoped : segment.markScoped.source = segment.source := by
  unfold markScoped
  split <;> rfl

@[simp] theorem find?_srcName_markScoped :
    Dict.find? segment.markScoped.attributes srcName = Dict.find? segment.attributes srcName := by
  unfold markScoped
  split
  · exact (Dict.find?_erase _ _ _).trans (if_neg (by decide))
  · rfl

end Scoped

theorem extract_of_tag?_eq_none {source : Text} {kind : SegmentKind} (h : tag? source kind = none) :
    extract tree dir source kind = empty := by
  rw [tag?, List.head?_eq_none_iff] at h
  rw [extract, h]

/-- A segment is loaded, up to what is remembered of `scoped`. -/
theorem extract_of_mem_tag? (tree : FileTree) (dir : Path) {source : Text} {kind : SegmentKind}
    {tag : Tag.Occurrence} (h : tag ∈ tag? source kind) :
    let loaded := load tree dir (Attributes.parse tag.attributes) tag.innerText
    extract tree dir source kind = loaded ∨ extract tree dir source kind = loaded.markScoped := by
  obtain ⟨others, hfound⟩ := List.head?_eq_some_iff.1 h
  rw [extract, hfound]
  by_cases hkind : kind = .style
  · exact .inr (if_pos hkind)
  · exact .inl (if_neg hkind)

/-! ## The file that is remembered -/

theorem source_load (tree : FileTree) (dir : Path) (attributes : Attributes) (inner : Text) :
    (load tree dir attributes inner).source =
      (if !inner.isEmpty then none else localSrc? attributes).map (Reference.path tree dir) := by
  by_cases hinner : inner = []
  · rw [hinner]
    cases hsrc : localSrc? attributes with
    | none =>
      rw [load_nil_of_localSrc?_eq_none hsrc]
      rfl
    | some src =>
      rw [load_nil_of_mem_localSrc? hsrc]
      rfl
  · rw [load_of_ne_nil hinner, if_pos (by simpa using hinner)]
    rfl

/-- The file that a segment remembers. -/
theorem source_extract {source : Text} {kind : SegmentKind} (tree : FileTree) :
    (extract tree dir source kind).source =
      (localSource? source kind).map (Reference.path tree dir) := by
  unfold extract localSource?
  cases Tag.occurrences .ignored kind.tagName source with
  | nil => rfl
  | cons occurrence rest =>
    have hload := source_load tree dir (Attributes.parse occurrence.attributes)
      occurrence.innerText
    rw [localSrc?] at hload
    simp only [← hload]
    by_cases hkind : kind = .style
    · rw [if_pos hkind, source_markScoped]
    · rw [if_neg hkind]

/-! ## What becomes of the `src` -/

/-- If there is no content, a `src` that is kept is remote. -/
def KeepsNoLocalSrc (segment : Segment) : Prop :=
  isAllBlank segment.content = true →
    ∀ src ∈ Dict.find? segment.attributes srcName, Reference.isRemote src = true

instance (segment : Segment) : Decidable segment.KeepsNoLocalSrc :=
  inferInstanceAs (Decidable (_ → _))

/-- The `src` is gone, the content is the text of the file, if it can be read, and the file is
remembered in any case. -/
@[mk_iff]
structure IsFilledFrom (tree : FileTree) (path : Path) (segment : Segment) : Prop where
  find?_src : Dict.find? segment.attributes srcName = none
  content_eq : segment.content = tree.textOf path
  source_eq : segment.source = some path

section Kept

variable {path : Path} {segment : Segment}

@[simp] theorem keepsNoLocalSrc_markScoped :
    segment.markScoped.KeepsNoLocalSrc ↔ segment.KeepsNoLocalSrc := by
  simp [KeepsNoLocalSrc]

@[simp] theorem isFilledFrom_markScoped :
    segment.markScoped.IsFilledFrom tree path ↔ segment.IsFilledFrom tree path := by
  simp [isFilledFrom_iff]

/-- A local `src` is kept without content only where the inner text is white space. -/
theorem keepsNoLocalSrc_load : (load tree dir attributes inner).KeepsNoLocalSrc ↔
    ∀ src ∈ localSrc? attributes, isAllBlank inner = true → inner = [] := by
  by_cases hinner : inner = []
  · subst hinner
    simp only [implies_true, iff_true]
    -- A local `src` is gone then, so one that is still there is remote.
    intro _ src hsrc
    cases hlocal : localSrc? attributes with
    | none =>
      rw [load_nil_of_localSrc?_eq_none hlocal] at hsrc
      by_contra hremote
      have hmem := mem_localSrc?_iff.2 ⟨hsrc, Bool.not_eq_true _ ▸ hremote⟩
      simp [hlocal] at hmem
    | some file =>
      rw [load_nil_of_mem_localSrc? hlocal, Dict.find?_erase, if_pos rfl] at hsrc
      simp at hsrc
  · rw [load_of_ne_nil hinner]
    constructor
    · intro hkeeps src hsrc hblank
      obtain ⟨hfind, hremote⟩ := mem_localSrc?_iff.1 hsrc
      exact absurd (hkeeps hblank src hfind) (Bool.not_eq_true _ ▸ hremote)
    · intro hnone hblank src hfind
      by_contra hremote
      have hsrc := mem_localSrc?_iff.2 ⟨hfind, Bool.not_eq_true _ ▸ hremote⟩
      exact hinner (hnone src hsrc hblank)

/-- The file is read exactly if there is no inner text at all. -/
theorem isFilledFrom_load (h : src ∈ localSrc? attributes) :
    (load tree dir attributes inner).IsFilledFrom tree (Reference.path tree dir src) ↔
      inner = [] := by
  by_cases hinner : inner = []
  · subst hinner
    rw [load_nil_of_mem_localSrc? h]
    exact iff_of_true ⟨by rw [Dict.find?_erase, if_pos rfl], rfl, rfl⟩ rfl
  · rw [load_of_ne_nil hinner]
    exact iff_of_false (fun hfilled ↦ absurd hfilled.source_eq (by simp)) hinner

end Kept

section Extracted

variable {source : Text} {kind : SegmentKind} {tag : Tag.Occurrence}

theorem keepsNoLocalSrc_extract (htag : tag ∈ tag? source kind) :
    (extract tree dir source kind).KeepsNoLocalSrc ↔
      ∀ src ∈ localSrc? (Attributes.parse tag.attributes),
        isAllBlank tag.innerText = true → tag.innerText = [] := by
  rcases extract_of_mem_tag? tree dir htag with h | h <;> rw [h]
  · exact keepsNoLocalSrc_load
  · exact keepsNoLocalSrc_markScoped.trans keepsNoLocalSrc_load

theorem isFilledFrom_extract (htag : tag ∈ tag? source kind)
    (hsrc : src ∈ localSrc? (Attributes.parse tag.attributes)) :
    (extract tree dir source kind).IsFilledFrom tree (Reference.path tree dir src) ↔
      tag.innerText = [] := by
  rcases extract_of_mem_tag? tree dir htag with h | h <;> rw [h]
  · exact isFilledFrom_load hsrc
  · exact isFilledFrom_markScoped.trans (isFilledFrom_load hsrc)

end Extracted

/-- A segment without content keeps a local `src` exactly if the inner text of its tag is white
space but not empty. Where the inner text is empty, a local `src` always gives way to its file. -/
theorem keepsNoLocalSrc_iff_and_isFilledFrom_iff (tree : FileTree) (dir : Path) (source : Text)
    (kind : SegmentKind) :
    let segment := (Segments.extract tree dir source).get kind
    (segment.KeepsNoLocalSrc ↔ ∀ tag ∈ tag? source kind,
        ∀ src ∈ localSrc? (Attributes.parse tag.attributes),
          isAllBlank tag.innerText = true → tag.innerText = []) ∧
      ∀ tag ∈ tag? source kind, ∀ src ∈ localSrc? (Attributes.parse tag.attributes),
        (segment.IsFilledFrom tree (Reference.path tree dir src) ↔ tag.innerText = []) := by
  rw [Segments.get_extract]
  refine ⟨?_, fun tag htag src hsrc ↦ isFilledFrom_extract htag hsrc⟩
  cases htag : tag? source kind with
  | none =>
    rw [extract_of_tag?_eq_none htag]
    simp [KeepsNoLocalSrc, empty]
  | some tag =>
    simp only [Option.mem_some_iff, forall_eq']
    exact keepsNoLocalSrc_extract htag

/-- A directory with one script file. -/
def appTree : FileTree :=
  FileTree.empty.write "/rain/app.js".toList (.text "run();".toList) (some 1)

def appTag : Tag.Occurrence where
  gap := []
  name := "SCRIPT".toList
  attributes := " src='app.js' defer ".toList
  ending := .selfClosing

theorem isFilledFrom_appTag :
    let script := (Segments.extract appTree "/rain".toList
      "<p/><SCRIPT src='app.js' defer />".toList).get .script
    script.KeepsNoLocalSrc ∧ script.IsFilledFrom appTree "/rain/app.js".toList ∧
      script.content = "run();".toList := by
  have htag : appTag ∈ tag? "<p/><SCRIPT src='app.js' defer />".toList .script := by
    decide +kernel
  have hsrc : "app.js".toList ∈ localSrc? (Attributes.parse appTag.attributes) := by
    decide +kernel
  obtain ⟨hkeeps, hfilled⟩ := keepsNoLocalSrc_iff_and_isFilledFrom_iff appTree "/rain".toList
    "<p/><SCRIPT src='app.js' defer />".toList .script
  have hscript := (hfilled appTag htag _ hsrc).2 rfl
  refine ⟨hkeeps.2 fun tag hmem _ _ _ ↦ ?_, hscript, ?_⟩
  · rw [← Option.mem_unique htag hmem]
    rfl
  · rw [hscript.content_eq]
    decide +kernel

/-- With a space as its inner text, a script keeps the name of its file and is not read from it. -/
theorem not_keepsNoLocalSrc_space :
    let script := (Segments.extract appTree "/rain".toList
      "<script src=\"app.js\"> </script>".toList).get .script
    script = ⟨[' '], [("src".toList, "app.js".toList)], false, none⟩ ∧
      ¬script.KeepsNoLocalSrc := by
  decide +kernel

end Segment

end ComponentMarkup

import ComponentMarkup.Proofs.Component.Outcome
import ComponentMarkup.Proofs.FileTree.Agreement

/-!
# Resolving references

A reference is resolved to the canonical path of a file, and that path is resolved to itself from
any directory. In trees that agree, a relative reference that does not go upwards and names no
directory is resolved to the same file if the file has the same stamp in both, and to none if the
place where it would be has no stamp.
-/

namespace ComponentMarkup

open ComponentMarkup.Path

theorem Reference.path_of_relative {reference : Path} (h : isAbsolute reference = false)
    (tree : FileTree) (dir : Path) : Reference.path tree dir reference = Path.join dir reference := by
  simp [Reference.path, h]

theorem Path.IsCanonical.isAbsolute {path : Path} (h : path.IsCanonical) :
    isAbsolute path = true := by
  obtain ⟨names, rfl, -⟩ := h
  rfl

namespace Component

open FileTree

section Files

variable {tree : FileTree} {path : Path}

theorem exists_of_isFile (h : tree.isFile path = true) : tree.exists? path = true := by
  unfold FileTree.isFile at h
  unfold FileTree.exists?
  split at h
  · rename_i hfind
    rw [hfind]
    rfl
  · simp at h

theorem isDirectory_of_isFile (h : tree.isFile path = true) : tree.isDirectory path = false := by
  unfold FileTree.isFile at h
  unfold FileTree.isDirectory
  split at h
  · rename_i hfind
    rw [hfind]
  · simp at h

/-- A path leads where its canonical path leads. -/
theorem locate_of_canonical? {canonical : Path} (h : tree.canonical? path = some canonical)
    (hexists : tree.exists? path = true) : tree.locate canonical = tree.locate path := by
  unfold canonical? at h
  cases hlocate : tree.locate path with
  | error error => simp [hlocate] at h
  | ok names =>
    obtain rfl : ofNames names = canonical := by simpa [hlocate] using h
    apply locate_ofNames (isName_of_locate hlocate)
    rw [exists?, find?_of_locate hlocate] at hexists
    intro hnone
    rw [sight_eq, Option.map_eq_none_iff] at hnone
    simp [hnone] at hexists

end Files

variable {a b : FileTree} {extension dir reference path : Path}

theorem resolve?_eq_some (h : resolve? a extension dir reference = some path) :
    ∃ found, a.isFile found = true ∧ a.canonical? found = some path ∧
      (a.isDirectory (Reference.path a dir reference) = false →
        found = Reference.path a dir reference) := by
  unfold resolve? at h
  dsimp only at h
  split_ifs at h with hdirectory hfile hfile
  · exact ⟨_, hfile, h, fun hnot ↦ by simp [hnot] at hdirectory⟩
  · exact ⟨_, hfile, h, fun _ ↦ rfl⟩

theorem isCanonical_of_resolve? (h : resolve? a extension dir reference = some path) :
    path.IsCanonical := by
  obtain ⟨found, _, hcanonical, _⟩ := resolve?_eq_some h
  exact isCanonical_of_canonical? hcanonical

/-- What a reference is resolved to is a file. -/
theorem isFile_of_resolve? (h : resolve? a extension dir reference = some path) :
    a.isFile path = true := by
  obtain ⟨found, hfile, hcanonical, _⟩ := resolve?_eq_some h
  have hlocate := locate_of_canonical? hcanonical (exists_of_isFile hfile)
  rw [isFile, find?, hlocate]
  exact hfile

/-- The canonical path of a file is resolved to itself. -/
theorem resolve?_self (hpath : path.IsCanonical) (hfile : a.isFile path = true) (dir : Path) :
    resolve? a extension dir path = some path := by
  have hexists := exists_of_isFile hfile
  have hreference : Reference.path a dir path = path := by
    simp [Reference.path, hpath.isAbsolute, hexists]
  have hdirectory := isDirectory_of_isFile hfile
  unfold resolve?
  simp only [hreference, hdirectory, hfile, if_true, Bool.false_eq_true, if_false]
  exact canonical?_of_exists hpath hexists

section Agreement

variable (hagree : Agrees a b) (ha : a.IsStamped) (hb : b.IsStamped)

include hagree ha hb

/-- A downward path that names a file in one tree names it in another one where the file has the
same stamp. -/
theorem canonical?_of_agrees {found : Path} (hdown : found.IsDownward)
    (hfile : a.isFile found = true) (hcanonical : a.canonical? found = some path)
    (hstamp : a.stamp path = b.stamp path) :
    b.isFile found = true ∧ b.canonical? found = some path := by
  unfold canonical? at hcanonical
  cases hlocate : a.locate found with
  | error error => simp [hlocate] at hcanonical
  | ok names =>
    obtain rfl : ofNames names = path := by simpa [hlocate] using hcanonical
    have hnames := isName_of_locate hlocate
    obtain ⟨content, modified, hsight⟩ := isFile_iff.1 hfile
    rw [sight_of_locate hlocate] at hsight
    have ha' : a.locate (ofNames names) = .ok names := locate_ofNames hnames (by simp [hsight])
    have hsame := hagree.find? ha hb hstamp
    rw [sight_of_locate ha', hsight] at hsame
    have hbsight : b.sight names = some (.file content modified) := by
      cases hb' : b.locate (ofNames names) with
      | error error => simp [find?_of_locate_error hb'] at hsame
      | ok names' =>
        obtain rfl := locate_eq ha' hb'
        rw [← sight_of_locate hb', ← hsame]
    have hblocate : b.locate found = .ok names :=
      locate_of_isFile hdown hlocate (by simp [hsight]) (by simp [hbsight])
    refine ⟨isFile_iff.2 ⟨content, modified, ?_⟩, by rw [canonical?, hblocate]⟩
    rw [sight_of_locate hblocate, hbsight]

variable (hrelative : isAbsolute reference = false)
  (hnot : a.isDirectory (Path.join dir reference) = false)

include hrelative hnot

/-- A reference that is resolved to a file is resolved to it where that has the same stamp. -/
theorem resolve?_of_agrees_some (hdir : dir.IsDownward) (hdown : reference.IsDownward)
    (h : resolve? a extension dir reference = some path)
    (hstamp : a.stamp path = b.stamp path) :
    resolve? b extension dir reference = some path := by
  have hpath (tree : FileTree) := Reference.path_of_relative hrelative tree dir
  obtain ⟨found, hfile, hcanonical, hfound⟩ := resolve?_eq_some h
  rw [hpath] at hfound
  obtain rfl := hfound hnot
  obtain ⟨hbfile, hbcanonical⟩ := canonical?_of_agrees hagree ha hb
    (hdir.join hdown hrelative) hfile hcanonical hstamp
  unfold resolve?
  simp only [hpath, isDirectory_of_isFile hbfile, hbfile, if_true, Bool.false_eq_true, if_false]
  exact hbcanonical

omit hagree ha in
/-- A reference that is resolved to no file has no stamp, and where that is so it is resolved to
no file. -/
theorem resolve?_of_agrees_none (h : resolve? a extension dir reference = none)
    (hstamp : a.stamp (Path.join dir reference) = b.stamp (Path.join dir reference)) :
    resolve? b extension dir reference = none := by
  have hpath (tree : FileTree) := Reference.path_of_relative hrelative tree dir
  have hnone : a.find? (Path.join dir reference) = none := by
    unfold resolve? at h
    simp only [hpath, hnot, Bool.false_eq_true, if_false] at h
    cases hfind : a.find? (Path.join dir reference) with
    | none => rfl
    | some node =>
      cases node with
      | directory entries => simp [FileTree.isDirectory, hfind] at hnot
      | file content modified =>
        have hfile : a.isFile (Path.join dir reference) = true := by simp [FileTree.isFile, hfind]
        rw [if_pos hfile, canonical?] at h
        cases hlocate : a.locate (Path.join dir reference) with
        | error error => simp [find?_of_locate_error hlocate] at hfind
        | ok names => simp [hlocate] at h
  have hother : b.find? (Path.join dir reference) = none := by
    apply find?_eq_none_of_stamp hb
    rw [← hstamp, stamp_of_find?_eq_none hnone]
  simp [resolve?, hpath, FileTree.isDirectory, FileTree.isFile, hother]

end Agreement

/-! ## Paths of requests -/

theorem isCanonical_of_path? {setting : Setting} {request : Request} {path : Path}
    (h : request.path? setting = some path) : path.IsCanonical :=
  isCanonical_of_resolve? h

theorem path?_of_draft? {setting : Setting} {host : Host} {request : Request} {draft : Draft}
    (h : draft? setting host request = some draft) :
    request.path? setting = some draft.path := by
  obtain ⟨path, hpath, hdraft⟩ := Option.bind_eq_some_iff.1 h
  split at hdraft
  · rw [hpath, ← Option.some.inj hdraft]
    rfl
  · simp at hdraft

end Component

end ComponentMarkup

import ComponentMarkup.Proofs.FileTree.Discovered
import ComponentMarkup.Proofs.FileTree.Extension
import ComponentMarkup.Proofs.FileTree.Order

/-!
# All files are discovered

What is discovered below a directory are the files at any depth whose extension is asked for, and
nothing else: each of them once, in the order of paths.
-/

namespace ComponentMarkup

open ComponentMarkup.Path

/-- The path ends in a name with something in front of its last point and the extension behind
it. -/
def Path.EndsIn (path : Path) (extension : Text) : Prop :=
  ∃ front stem, path = front ++ '/' :: (stem ++ '.' :: extension) ∧ stem ≠ [] ∧ '/' ∉ stem ∧
    '/' ∉ extension ∧ '.' ∉ extension

namespace FileTree

variable {tree : FileTree} {path dir : Path} {place found : List Text} {name piece : Text}

/-! ## Paths that lead to files -/

theorem isAbsolute_of_locate (h : tree.locate path = .ok found) : isAbsolute path = true := by
  unfold locate at h
  split at h
  · rfl
  · simp at h

theorem exists_locate_of_find? {node : Node} (h : tree.find? path = some node) :
    ∃ found, tree.locate path = .ok found ∧ tree.node? found = some node := by
  cases hlocate : tree.locate path with
  | error error => simp [find?_of_locate_error hlocate] at h
  | ok found => exact ⟨found, rfl, by rw [← find?_of_locate hlocate, h]⟩

/-- A file is at the names that its path leads to. -/
theorem exists_locate_of_isFile (h : tree.isFile path = true) :
    ∃ found content modified, tree.locate path = .ok found ∧
      tree.sight found = some (.file content modified) := by
  obtain ⟨content, modified, hsight⟩ := isFile_iff.1 h
  obtain ⟨found, hlocate, hfound⟩ := Discovery.exists_locate_of_sight hsight
  exact ⟨found, content, modified, hlocate, hfound⟩

theorem sight_of_walk_cons {rest : List Text} (h : walk tree place (piece :: rest) = .ok found) :
    tree.sight place = some .directory := by
  rw [walk_cons] at h
  split at h <;> simp_all

/-- What leads on from a directory leads on from where the directory leads. -/
theorem exists_locate_of_locate_join (hpiece : '/' ∉ piece)
    (h : tree.locate (join dir piece) = .ok found) :
    ∃ place, tree.locate dir = .ok place ∧ walk tree place [piece] = .ok found := by
  have hrelative := isAbsolute_of_not_slash hpiece
  have hdir : dir ≠ [] := by
    rintro rfl
    have habsolute := isAbsolute_of_locate h
    simp [join, hrelative] at habsolute
  obtain ⟨front, hjoin, hfront⟩ := join_relative hdir hrelative
  rw [hjoin] at h
  cases front with
  | nil =>
    obtain rfl : dir = ['/'] := by simpa [hdir] using hfront
    exact ⟨[], rfl, by rwa [← pieces_of_not_slash hpiece]⟩
  | cons c front =>
    obtain rfl : c = '/' := by simpa [isAbsolute] using isAbsolute_of_locate h
    rw [locate_append_slash, pieces_of_not_slash hpiece] at h
    cases hwalk : walk tree [] (pieces front) with
    | error error => simp [hwalk, Except.bind] at h
    | ok place =>
      rw [hwalk] at h
      refine ⟨place, ?_, h⟩
      rcases hfront with rfl | rfl
      · exact hwalk
      · -- A slash at the end is an idle piece, which leads nowhere.
        have hslash : '/' :: front ++ ['/'] = '/' :: front ++ '/' :: [] := rfl
        rw [hslash, locate_append_slash, hwalk]
        show walk tree place [[]] = _
        rw [walk_cons, sight_of_walk_cons h]
        rfl

/-- One piece that leads to a file is its name. -/
theorem isName_of_walk_singleton (hpiece : '/' ∉ piece) (hwalk : walk tree place [piece] = .ok found)
    (hfile : tree.sight found ≠ some .directory) :
    IsName piece := by
  rw [walk_cons] at hwalk
  split at hwalk
  · rename_i hplace
    split_ifs at hwalk with hidle hup
    · obtain rfl : place = found := by simpa [walk] using hwalk
      exact absurd hplace hfile
    · -- What stands above a directory is a directory.
      obtain rfl : place.dropLast = found := by simpa [walk] using hwalk
      refine absurd ?_ hfile
      rcases List.eq_nil_or_concat' place with rfl | ⟨front, last, rfl⟩
      · exact hplace
      · rw [List.dropLast_concat]
        exact sight_of_append (List.cons_ne_nil last []) (by simp [hplace])
    · exact ⟨by simpa using hidle, hup, hpiece⟩
  · simp at hwalk
  · simp at hwalk

theorem isName_of_isFile {front : Path} (hpiece : '/' ∉ piece)
    (h : tree.isFile (front ++ '/' :: piece) = true) : IsName piece := by
  have hjoin : join (front ++ ['/']) piece = front ++ '/' :: piece := by
    simp [join, isAbsolute_of_not_slash hpiece]
  rw [← hjoin] at h
  obtain ⟨found, content, modified, hlocate, hsight⟩ := exists_locate_of_isFile h
  obtain ⟨place, -, hwalk⟩ := exists_locate_of_locate_join hpiece hlocate
  exact isName_of_walk_singleton hpiece hwalk (by simp [hsight])

/-- The extension of the path of a file. -/
theorem extension?_eq_some_iff {extension : Text} (h : tree.isFile path = true) :
    extension? path = some extension ↔ path.EndsIn extension := by
  constructor
  · intro hextension
    obtain ⟨front, name, rfl, hname⟩ : ∃ front name, path = front ++ '/' :: name ∧ '/' ∉ name := by
      obtain ⟨found, -, -, hlocate, -⟩ := exists_locate_of_isFile h
      obtain ⟨rest, rfl⟩ := exists_eq_slash_of_isAbsolute (isAbsolute_of_locate hlocate)
      exact Text.exists_last_of_mem List.mem_cons_self
    rw [extension?_append_cons front (isName_of_isFile hname h)] at hextension
    obtain ⟨stem, hsplit⟩ : ∃ stem, splitName name = (stem, some extension) :=
      ⟨_, Prod.ext rfl hextension⟩
    obtain ⟨rfl, hstem, hpoint⟩ := splitName_eq_iff.1 hsplit
    simp only [List.mem_append, List.mem_cons, not_or] at hname
    exact ⟨front, stem, rfl, hstem, hname.1, hname.2.2, hpoint⟩
  · rintro ⟨front, stem, rfl, hstem, hslash, hextension, hpoint⟩
    have hname : '/' ∉ stem ++ '.' :: extension := by simp [hslash, hextension]
    rw [extension?_append_cons front (isName_of_isFile hname h),
      splitName_append_cons stem hpoint, if_neg hstem]

end FileTree

open FileTree

namespace Discovery

variable {tree : FileTree} {dir path : Path} {extension : Text} {names : List Text}

/-! ## Files below a node -/

theorem mem_filesIn_of_find? {entries : Dict Node} {name : Text} {child : Node}
    (hfind : Dict.find? entries name = some child) (hmem : names ∈ filesBelow child) :
    name :: names ∈ filesIn entries := by
  induction entries with
  | nil => simp at hfind
  | cons entry rest ih =>
    rw [filesIn, List.mem_append]
    rw [Dict.find?] at hfind
    split at hfind
    · rename_i heq
      obtain rfl := Option.some.inj hfind
      exact .inl (List.mem_map.2 ⟨names, hmem, by rw [heq]⟩)
    · exact .inr (ih hfind)

/-- Names that lead to a file are among those of the files below. -/
theorem mem_filesBelow_of_at? {node : Node} {content : Content} {modified : Stamp}
    (h : node.at? names = some (.file content modified)) : names ∈ filesBelow node := by
  induction names generalizing node with
  | nil =>
    obtain rfl : node = .file content modified := by simpa [Node.at?] using h
    exact List.mem_singleton_self _
  | cons name rest ih =>
    cases node with
    | file => simp [Node.at?] at h
    | directory entries =>
      obtain ⟨child, hfind, hrest⟩ := Option.bind_eq_some_iff.1 h
      exact mem_filesIn_of_find? hfind (ih hrest)

/-! ## Files below a directory -/

/-- The path leads from the directory through names to a file. -/
def IsFileBelow (tree : FileTree) (dir path : Path) : Prop :=
  ∃ names, (∀ name ∈ names, IsName name) ∧ path = pathTo dir names ∧ tree.isFile path = true

theorem exists_locate_of_locate_pathTo {found : List Text} (hnames : ∀ name ∈ names, IsName name)
    (h : tree.locate (pathTo dir names) = .ok found) :
    ∃ place, tree.locate dir = .ok place ∧ found = place ++ names := by
  induction names generalizing dir with
  | nil => exact ⟨found, h, (List.append_nil _).symm⟩
  | cons name rest ih =>
    obtain ⟨hname, hrest⟩ := List.forall_mem_cons.1 hnames
    obtain ⟨next, hnext, rfl⟩ := ih hrest h
    obtain ⟨place, hplace, hwalk⟩ := exists_locate_of_locate_join hname.not_slash hnext
    have hstep : next = place ++ [name] := by
      rw [walk_eq_follow hwalk, follow_names (List.forall_mem_singleton.2 hname)]
    exact ⟨place, hplace, by rw [hstep, List.append_assoc, List.singleton_append]⟩

theorem exists_mem_filesBelow (h : IsFileBelow tree dir path) :
    ∃ node, tree.find? dir = some node ∧ ∃ names ∈ filesBelow node, path = pathTo dir names := by
  obtain ⟨names, hnames, rfl, hfile⟩ := h
  obtain ⟨found, content, modified, hlocate, hsight⟩ := exists_locate_of_isFile hfile
  obtain ⟨place, hplace, rfl⟩ := exists_locate_of_locate_pathTo hnames hlocate
  rw [sight_eq, node?_append] at hsight
  obtain ⟨file, hbelow, hfile⟩ := Option.map_eq_some_iff.1 hsight
  obtain ⟨node, hnode, hat⟩ := Option.bind_eq_some_iff.1 hbelow
  refine ⟨node, by rw [find?_of_locate hplace, hnode], names, ?_, rfl⟩
  cases file with
  | file content modified => exact mem_filesBelow_of_at? hat
  | directory entries => simp [Node.sight] at hfile

theorem isFileBelow_of_mem_filesBelow (hproper : tree.IsProper) {node : Node}
    (hfind : tree.find? dir = some node) (hmem : names ∈ filesBelow node) :
    (∀ name ∈ names, IsName name) ∧ tree.isFile (pathTo dir names) = true := by
  have hleads := leadsToFile_of_mem_filesBelow (isProper_of_find?_tree hproper hfind) hmem
  obtain ⟨hsome, hnot⟩ := hleads.file
  obtain ⟨place, hlocate, hnode⟩ := exists_locate_of_find? hfind
  have hsight : tree.sight (place ++ names) = node.sightAt names := by
    rw [sight_eq, node?_append, hnode]
    rfl
  obtain ⟨sight, heq⟩ := Option.isSome_iff_exists.1 hsome
  have hpath := locate_pathTo hleads.isName hlocate (by simp [hsight, heq])
  refine ⟨hleads.isName, isFile_iff.2 ?_⟩
  rw [sight_of_locate hpath, hsight, heq]
  rw [heq] at hnot
  cases sight with
  | file content modified => exact ⟨content, modified, rfl⟩
  | directory => exact absurd rfl hnot

/-- What is discovered are the files below the directory that have the extension. -/
theorem mem_paths_iff (hproper : tree.IsProper) :
    path ∈ paths tree dir extension ↔ IsFileBelow tree dir path ∧ path.EndsIn extension := by
  constructor
  · intro h
    obtain ⟨names, hnames, rfl⟩ := List.mem_map.1 h
    unfold Discovery.names at hnames
    split at hnames
    · exact absurd hnames List.not_mem_nil
    · rename_i node hfind
      obtain ⟨hmem, hextension⟩ := List.mem_filter.1 (List.mem_mergeSort.1 hnames)
      obtain ⟨hisName, hfile⟩ := isFileBelow_of_mem_filesBelow hproper hfind hmem
      refine ⟨⟨names, hisName, rfl, hfile⟩, (extension?_eq_some_iff hfile).1 ?_⟩
      simpa [hasExtension] using hextension
  · rintro ⟨hbelow, hends⟩
    obtain ⟨node, hfind, names, hmem, rfl⟩ := exists_mem_filesBelow hbelow
    refine List.mem_map.2 ⟨names, ?_, rfl⟩
    rw [Discovery.names, hfind]
    refine List.mem_mergeSort.2 (List.mem_filter.2 ⟨hmem, ?_⟩)
    obtain ⟨-, -, -, hfile⟩ := hbelow
    simpa [hasExtension] using (extension?_eq_some_iff hfile).2 hends

/-! ## The order of what is discovered -/

/-- What is discovered stands in the order of paths. -/
theorem pairwise_paths (hproper : tree.IsProper) (dir : Path) (extension : Text) :
    (paths tree dir extension).Pairwise Path.Precedes := by
  cases hfind : tree.find? dir with
  | none =>
    rw [paths, Discovery.names, hfind]
    exact List.Pairwise.nil
  | some node =>
    have hdir : isAbsolute dir = true := by
      obtain ⟨place, hlocate, -⟩ := exists_locate_of_find? hfind
      exact isAbsolute_of_locate hlocate
    have hnode := isProper_of_find?_tree hproper hfind
    have hstrict : (Discovery.names tree dir extension).Pairwise (· < ·) :=
      (pairwise_names tree dir extension).imp₂ (fun _ _ hle hne ↦ lt_of_le_of_ne hle hne)
        (nodup_names hproper dir extension)
    rw [paths, List.pairwise_map]
    refine hstrict.imp_of_mem fun {a b} ha hb hab ↦ ?_
    exact pathTo_precedes hdir (leadsToFile_of_mem_filesBelow hnode (mem_names hfind ha)).isName
      (leadsToFile_of_mem_filesBelow hnode (mem_names hfind hb)).isName hab

theorem paths_of_not_exists (h : tree.exists? dir = false) : paths tree dir extension = [] := by
  have hfind : tree.find? dir = none := by simpa [FileTree.exists?] using h
  rw [paths, Discovery.names, hfind]
  rfl

/-- Discovery gives exactly the files below a directory that have the extension, each once and in
the order of paths; below a directory that is not there it gives none. -/
theorem mem_paths_iff_and_increasing (hproper : tree.IsProper) (dir : Path) (extension : Text) :
    (∀ path, path ∈ paths tree dir extension ↔
        IsFileBelow tree dir path ∧ path.EndsIn extension) ∧
      (paths tree dir extension).Nodup ∧
      (paths tree dir extension).Pairwise Path.Precedes ∧
      (tree.exists? dir = false → paths tree dir extension = []) :=
  ⟨fun _ ↦ mem_paths_iff hproper,
    (pairwise_paths hproper dir extension).imp Path.Precedes.ne,
    pairwise_paths hproper dir extension,
    paths_of_not_exists⟩

/-- A directory with the extension, a dot-file and names with several points, in no order. -/
def tangle : FileTree :=
  ["/rain/index.rain", "/rain/a-b.rain", "/rain/a/b.rain", "/rain/.rain", "/rain/x.rain/y.json",
    "/rain/x.rain/z.old.rain", "/rain/a/.hidden.rain", "/rain/rain"].foldl
      (fun tree path ↦ tree.write path.toList (.text []) (some 1)) .empty

/-- Step by step `a/b.rain` comes before `a-b.rain`, although the text comes behind. -/
theorem paths_tangle :
    let found := ["/rain/a/.hidden.rain", "/rain/a/b.rain", "/rain/a-b.rain", "/rain/index.rain",
      "/rain/x.rain/z.old.rain"].map String.toList
    tangle.IsProper ∧ paths tangle "/rain".toList "rain".toList = found ∧
      (∀ path : Path, path ∈ found ↔
        IsFileBelow tangle "/rain".toList path ∧ path.EndsIn "rain".toList) ∧
      found.Nodup ∧ found.Pairwise Path.Precedes ∧
      tangle.exists? "/rain/b".toList = false ∧ paths tangle "/rain/b".toList "rain".toList = [] := by
  intro found
  have hproper : tangle.IsProper := by decide +kernel
  have hnames : Discovery.names tangle "/rain".toList "rain".toList =
      [["a", ".hidden.rain"], ["a", "b.rain"], ["a-b.rain"], ["index.rain"],
        ["x.rain", "z.old.rain"]].map (List.map String.toList) :=
    names_of_perm (by decide +kernel) (by decide +kernel)
  have hfound : paths tangle "/rain".toList "rain".toList = found := by
    rw [paths, hnames]
    decide +kernel
  have hmissing : tangle.exists? "/rain/b".toList = false := by decide +kernel
  obtain ⟨hmem, hnodup, hincreasing, -⟩ :=
    mem_paths_iff_and_increasing hproper "/rain".toList "rain".toList
  obtain ⟨-, -, -, hnone⟩ := mem_paths_iff_and_increasing hproper "/rain/b".toList "rain".toList
  rw [hfound] at hmem hnodup hincreasing
  exact ⟨hproper, hfound, hmem, hnodup, hincreasing, hmissing, hnone hmissing⟩

end Discovery

end ComponentMarkup

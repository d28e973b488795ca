import ComponentMarkup.Proofs.Component.Resolve
import ComponentMarkup.Proofs.FileTree.Walk

/-!
# Copies of directories

A copy of a directory has the same files and directories below it, in another place of the same tree
or of another one; what stands elsewhere and when the files were modified does not matter. A relative
reference that never leads above the directory leads to the same place in a copy, or nowhere in both,
and what it leads to reads the same.
-/

namespace ComponentMarkup

open ComponentMarkup.Path Component

/-- Pieces of a path never lead above the place that many directories up from where they start. -/
def Path.staysInside : Nat → List Text → Bool
  | _, [] => true
  | depth, piece :: rest =>
    if isIdle piece then staysInside depth rest
    else if piece = ['.', '.'] then 0 < depth && staysInside (depth - 1) rest
    else staysInside (depth + 1) rest

/-- A relative path that never leads above the place that many directories up. -/
structure Path.IsInside (depth : Nat) (path : Path) : Prop where
  relative : isAbsolute path = false
  inside : staysInside depth (pieces path) = true

instance (depth : Nat) (path : Path) : Decidable (path.IsInside depth) :=
  decidable_of_iff (isAbsolute path = false ∧ staysInside depth (pieces path) = true)
    ⟨fun h ↦ ⟨h.1, h.2⟩, fun h ↦ ⟨h.relative, h.inside⟩⟩

theorem Path.staysInside_mono {pieces : List Text} {depth more : Nat}
    (h : staysInside depth pieces = true) (hle : depth ≤ more) : staysInside more pieces = true := by
  induction pieces generalizing depth more with
  | nil => rfl
  | cons piece rest ih =>
    rw [staysInside] at h ⊢
    split_ifs at h ⊢
    · exact ih h hle
    · rw [Bool.and_eq_true, decide_eq_true_eq] at h ⊢
      exact ⟨by omega, ih h.2 (by omega)⟩
    · exact ih h (by omega)

theorem Path.IsInside.mono {depth more : Nat} {path : Path} (h : path.IsInside depth)
    (hle : depth ≤ more) : path.IsInside more :=
  ⟨h.relative, staysInside_mono h.inside hle⟩

namespace FileTree

/-- What is seen apart from stamps: the content of a file, or a directory. -/
def Sight.content? : Sight → Option Content
  | file content _ => some content
  | directory => none

/-- The second tree has a copy of a directory of the first one, in another place. -/
structure IsCopy (a b : FileTree) (place other : List Text) : Prop where
  directory : a.sight place = some .directory
  same : ∀ below, (a.sight (place ++ below)).map Sight.content? =
    (b.sight (other ++ below)).map Sight.content?

/-- Directories with the same entries are copies. -/
theorem isCopy_of_node?_eq {a b : FileTree} {place other : List Text} {entries : List (Text × Node)}
    (ha : a.node? place = some (.directory entries))
    (hb : b.node? other = some (.directory entries)) : IsCopy a b place other where
  directory := by
    rw [sight_eq, ha]
    rfl
  same below := by
    rw [sight_eq, sight_eq, node?_append, node?_append, ha, hb]

/-- Two walks end in the same place of a copy, or nowhere with the same error. -/
inductive LandsAlike (place other : List Text) :
    Except ReadError (List Text) → Except ReadError (List Text) → Prop
  | ok (below : List Text) : LandsAlike place other (.ok (place ++ below)) (.ok (other ++ below))
  | error (error : ReadError) : LandsAlike place other (.error error) (.error error)

/-- Paths to the same directory of a copy. -/
structure SameDirectory (a b : FileTree) (place other below : List Text) (dir twin : Path) : Prop where
  here : a.locate dir = .ok (place ++ below)
  there : b.locate twin = .ok (other ++ below)
  directory : a.sight (place ++ below) = some .directory

/-- A step upwards leads to a directory, and a directory has no text. -/
theorem textOf_join_up {tree : FileTree} {dir : Path} {place : List Text}
    (hdir : tree.locate dir = .ok place) (hplace : tree.sight place = some .directory) :
    tree.textOf (join dir ['.', '.']) = [] := by
  have hlocate : tree.locate (join dir ['.', '.']) = .ok place.dropLast := by
    rw [locate_join hdir hplace (by decide)]
    show walk tree place [['.', '.']] = _
    rw [walk_cons, hplace]
    rfl
  have hsight : tree.sight place.dropLast = some .directory := by
    rcases List.eq_nil_or_concat' place with rfl | ⟨front, name, rfl⟩
    · exact hplace
    · rw [List.dropLast_concat]
      exact sight_of_append (List.cons_ne_nil name []) (by rw [hplace]; exact Option.some_ne_none _)
  rw [textOf]
  cases hread : tree.read (join dir ['.', '.']) with
  | error error => rfl
  | ok text =>
    obtain ⟨modified, hfile⟩ := read_eq_ok_iff.1 hread
    rw [sight_of_locate hlocate, hsight] at hfile
    simp at hfile

section Copy

variable {a b : FileTree} {place other : List Text} (h : IsCopy a b place other)

include h

theorem IsCopy.isSome_sight (below : List Text) :
    (b.sight (other ++ below)).isSome = (a.sight (place ++ below)).isSome := by
  simpa only [Option.isSome_map] using congrArg Option.isSome (h.same below).symm

theorem IsCopy.sight_directory {below : List Text}
    (hsight : a.sight (place ++ below) = some .directory) :
    b.sight (other ++ below) = some .directory := by
  have hsame := h.same below
  rw [hsight] at hsame
  cases hb : b.sight (other ++ below) with
  | none => simp [hb] at hsame
  | some sight => cases sight <;> simp [hb, Sight.content?] at hsame ⊢

theorem IsCopy.sight_file {below : List Text} {content : Content} {modified : Stamp}
    (hsight : a.sight (place ++ below) = some (.file content modified)) :
    ∃ touched, b.sight (other ++ below) = some (.file content touched) := by
  have hsame := h.same below
  rw [hsight] at hsame
  cases hb : b.sight (other ++ below) with
  | none => simp [hb] at hsame
  | some sight =>
    cases sight with
    | file _ touched =>
      obtain rfl := by simpa [hb, Sight.content?] using hsame
      exact ⟨touched, rfl⟩
    | directory => simp [hb, Sight.content?] at hsame

theorem IsCopy.sight_none {below : List Text} (hsight : a.sight (place ++ below) = none) :
    b.sight (other ++ below) = none := by
  have hsome := h.isSome_sight below
  rw [hsight] at hsome
  exact Option.not_isSome_iff_eq_none.1 (Bool.eq_false_iff.1 hsome)

/-- Walks that never lead above a directory end alike in its copy. -/
theorem IsCopy.walk_alike {below pieces : List Text}
    (hinside : staysInside below.length pieces = true) :
    LandsAlike place other (walk a (place ++ below) pieces) (walk b (other ++ below) pieces) := by
  induction pieces generalizing below with
  | nil => exact .ok below
  | cons piece rest ih =>
    rw [walk_cons, walk_cons]
    cases hsight : a.sight (place ++ below) with
    | none =>
      rw [h.sight_none hsight]
      exact .error .notFound
    | some sight =>
      cases sight with
      | file content modified =>
        obtain ⟨touched, hfile⟩ := h.sight_file hsight
        rw [hfile]
        exact .error .notDirectory
      | directory =>
        have hsome := h.isSome_sight (below ++ [piece])
        rw [← List.append_assoc, ← List.append_assoc] at hsome
        rw [h.sight_directory hsight]
        dsimp only
        rw [hsome]
        rw [staysInside] at hinside
        split_ifs at hinside ⊢ with hidle hup hthere
        · exact ih hinside
        · -- A step upwards ends below the directory, for the pieces stay inside.
          rcases List.eq_nil_or_concat' below with rfl | ⟨front, last, rfl⟩
          · simp at hinside
          · rw [← List.append_assoc, ← List.append_assoc, List.dropLast_concat, List.dropLast_concat]
            exact ih (by simpa using hinside)
        · rw [List.append_assoc, List.append_assoc]
          exact ih (by simpa using hinside)
        · exact .error .notFound

section Paths

variable {p q : Path} (hland : LandsAlike place other (a.locate p) (b.locate q))

include hland

/-- What paths that end alike lead to differs in its stamp only. -/
theorem IsCopy.content?_eq :
    ((a.find? p).map Node.sight).map Sight.content? =
      ((b.find? q).map Node.sight).map Sight.content? := by
  generalize ha : a.locate p = first at hland
  generalize hb : b.locate q = second at hland
  cases hland with
  | ok below => rw [sight_of_locate ha, sight_of_locate hb, h.same below]
  | error error => rw [find?_of_locate_error ha, find?_of_locate_error hb]

/-- Both lead to a file, both to a directory, or both to nothing. -/
theorem IsCopy.isDirectory_map_eq :
    ((a.find? p).map Node.sight).map Sight.isDirectory =
      ((b.find? q).map Node.sight).map Sight.isDirectory := by
  have hkind : Sight.isDirectory = Option.isNone ∘ Sight.content? := by
    funext sight
    cases sight <;> rfl
  rw [hkind, ← Option.map_map, h.content?_eq hland, Option.map_map]

theorem IsCopy.isFile_eq : a.isFile p = b.isFile q := by
  rw [isFile_eq_decide, h.isDirectory_map_eq hland, ← isFile_eq_decide]

theorem IsCopy.isDirectory_eq : a.isDirectory p = b.isDirectory q := by
  rw [isDirectory_eq_decide, h.isDirectory_map_eq hland, ← isDirectory_eq_decide]

theorem IsCopy.toOption_read_eq : (a.read p).toOption = (b.read q).toOption := by
  have htext (tree : FileTree) (path : Path) (text : Text) : tree.read path = .ok text ↔
      ((tree.find? path).map Node.sight).map Sight.content? = some (some (.text text)) := by
    rw [read_eq_ok_iff]
    cases (tree.find? path).map Node.sight with
    | none => simp
    | some sight => cases sight <;> simp [Sight.content?]
  have hread (text : Text) : a.read p = .ok text ↔ b.read q = .ok text := by
    rw [htext, h.content?_eq hland, ← htext]
  cases ha : a.read p with
  | ok text => rw [(hread text).1 ha]
  | error error =>
    cases hb : b.read q with
    | ok text =>
      rw [(hread text).2 hb] at ha
      simp at ha
    | error => rfl

theorem IsCopy.textOf_eq : a.textOf p = b.textOf q := by
  rw [textOf, h.toOption_read_eq hland, textOf]

end Paths

variable {below : List Text} {dir twin : Path}
  (hdir : SameDirectory a b place other below dir twin)

include hdir

/-- A reference that stays inside ends alike in a copy. -/
theorem IsCopy.join_alike {reference : Path} (hinside : reference.IsInside below.length) :
    LandsAlike place other (a.locate (join dir reference)) (b.locate (join twin reference)) := by
  rw [locate_join hdir.here hdir.directory hinside.relative,
    locate_join hdir.there (h.sight_directory hdir.directory) hinside.relative]
  exact h.walk_alike hinside.inside

/-- A name in a directory of a copy reads the same; a step upwards leads to a directory, which has no
text. -/
theorem IsCopy.textOf_join_eq {piece : Text} (hpiece : '/' ∉ piece) :
    a.textOf (join dir piece) = b.textOf (join twin piece) := by
  by_cases hup : piece = ['.', '.']
  · rw [hup, textOf_join_up hdir.here hdir.directory,
      textOf_join_up hdir.there (h.sight_directory hdir.directory)]
  · have hinside : IsInside below.length piece :=
      ⟨isAbsolute_of_not_slash hpiece, by simp [pieces_of_not_slash hpiece, staysInside, hup]⟩
    exact h.textOf_eq (h.join_alike hdir hinside)

end Copy

/-! ## Files of a copy -/

/-- The canonical paths of a file of a directory and of the same file of its copy. -/
structure MovedFile (a : FileTree) (place other below : List Text) (p q : Path) : Prop where
  here : p = ofNames (place ++ below)
  there : q = ofNames (other ++ below)
  names : ∀ name ∈ place ++ below, IsName name
  otherNames : ∀ name ∈ other ++ below, IsName name
  file : ∃ content modified, a.sight (place ++ below) = some (.file content modified)

/-- How many directories below a place a file stands. -/
def depthBelow (place : List Text) (path : Path) : Nat :=
  (namesOf path).length - 1 - place.length

section Moved

variable {a b : FileTree} {place other below : List Text} {p q : Path}

theorem MovedFile.depthBelow_eq (h : MovedFile a place other below p q) {front : List Text}
    {name : Text} (hbelow : below = front ++ [name]) : depthBelow place p = front.length := by
  rw [depthBelow, h.here, namesOf_ofNames h.names, hbelow, List.length_append, List.length_append,
    List.length_singleton]
  omega

theorem MovedFile.eq_iff {x y : Path} {others : List Text} (h : MovedFile a place other below p q)
    (hother : MovedFile a place other others x y) : x = p ↔ y = q := by
  have hpaths {front : List Text} (hfirst : ∀ name ∈ front ++ others, IsName name)
      (hsecond : ∀ name ∈ front ++ below, IsName name) :
      ofNames (front ++ others) = ofNames (front ++ below) ↔ others = below := by
    refine ⟨fun heq ↦ ?_, fun heq ↦ by rw [heq]⟩
    have hnames := congrArg namesOf heq
    rw [namesOf_ofNames hfirst, namesOf_ofNames hsecond] at hnames
    exact List.append_cancel_left hnames
  rw [h.here, hother.here, h.there, hother.there, hpaths hother.names h.names,
    hpaths hother.otherNames h.otherNames]

variable (h : IsCopy a b place other) (hmoved : MovedFile a place other below p q)

include h hmoved

theorem IsCopy.locate_moved : LandsAlike place other (a.locate p) (b.locate q) := by
  obtain ⟨content, modified, hsight⟩ := hmoved.file
  have hsome := h.isSome_sight below
  rw [hsight] at hsome
  rw [hmoved.here, hmoved.there, locate_ofNames hmoved.names (by simp [hsight]),
    locate_ofNames hmoved.otherNames (Option.isSome_iff_ne_none.1 hsome)]
  exact .ok below

/-- A file of a copy stands under its name in a directory of the copy. -/
theorem IsCopy.exists_directory : ∃ front name, below = front ++ [name] ∧
    SameDirectory a b place other front (parent p) (parent q) := by
  obtain ⟨content, modified, hfile⟩ := hmoved.file
  rcases List.eq_nil_or_concat' below with rfl | ⟨front, name, rfl⟩
  · rw [List.append_nil, h.directory] at hfile
    simp at hfile
  · refine ⟨front, name, rfl, ?_⟩
    obtain ⟨rfl, rfl, hnames, hothers, _⟩ := hmoved
    rw [← List.append_assoc] at hfile hnames hothers ⊢
    have hslash : '/' ∉ name := (hnames name (by simp)).not_slash
    have hdirectory : a.sight (place ++ front) = some .directory :=
      sight_of_append (List.cons_ne_nil name []) (by rw [hfile]; exact Option.some_ne_none _)
    have hother := h.sight_directory hdirectory
    rw [← List.append_assoc, parent_ofNames _ hslash, parent_ofNames _ hslash]
    exact ⟨locate_ofNames (fun n hn ↦ hnames n (List.mem_append_left _ hn)) (by simp [hdirectory]),
      locate_ofNames (fun n hn ↦ hothers n (List.mem_append_left _ hn)) (by simp [hother]),
      hdirectory⟩

end Moved

end FileTree

end ComponentMarkup

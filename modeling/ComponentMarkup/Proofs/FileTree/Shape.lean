import ComponentMarkup.Proofs.FileTree.Agreement
import ComponentMarkup.Component.Input

/-!
# Trees with the same files and directories

Two trees have the same shape if names that lead to a file in one lead to a file in the other, and
the same for directories. Paths and references then lead to the same places in both, whatever the
files hold. Writing over a file keeps the shape.
-/

namespace ComponentMarkup

open Component

namespace FileTree

def Sight.isDirectory : Sight → Bool
  | file .. => false
  | directory => true

/-- The same names lead to files, and the same names lead to directories. -/
def SameShape (a b : FileTree) : Prop :=
  ∀ names, (a.sight names).map Sight.isDirectory = (b.sight names).map Sight.isDirectory

section Shape

variable {a b : FileTree} (h : SameShape a b)

/-- An entry of a directory is what its name leads to. -/
theorem find?_entries {tree : FileTree} {place : List Text} {entries : List (Text × Node)}
    (hplace : tree.node? place = some (.directory entries)) (name : Text) :
    Dict.find? entries name = tree.node? (place ++ [name]) := by
  rw [node?_append, hplace, Option.bind_some, Node.at?]
  cases Dict.find? entries name <;> rfl

theorem isFile_eq_decide (tree : FileTree) (path : Path) :
    tree.isFile path =
      decide (((tree.find? path).map Node.sight).map Sight.isDirectory = some false) := by
  unfold isFile
  cases tree.find? path with
  | none => rfl
  | some node => cases node <;> rfl

theorem isDirectory_eq_decide (tree : FileTree) (path : Path) :
    tree.isDirectory path =
      decide (((tree.find? path).map Node.sight).map Sight.isDirectory = some true) := by
  unfold isDirectory
  cases tree.find? path with
  | none => rfl
  | some node => cases node <;> rfl

include h in
theorem SameShape.isSome_node? (names : List Text) :
    (a.node? names).isSome = (b.node? names).isSome := by
  have hnames := congrArg Option.isSome (h names)
  simpa only [sight_eq, Option.isSome_map] using hnames

include h in
theorem SameShape.walk_eq (place pieces : List Text) : walk a place pieces = walk b place pieces := by
  induction pieces generalizing place with
  | nil => rfl
  | cons piece rest ih =>
    have hplace := h place
    rw [sight_eq, sight_eq] at hplace
    rw [walk, walk]
    cases ha : a.node? place with
    | none =>
      cases hb : b.node? place with
      | none => rfl
      | some node => simp [ha, hb] at hplace
    | some node =>
      cases hb : b.node? place with
      | none => simp [ha, hb] at hplace
      | some other =>
        cases node <;> cases other <;>
          simp only [ha, hb, Option.map_some, Node.sight, Sight.isDirectory, Option.some.injEq,
            reduceCtorEq] at hplace
        · rfl
        · have hpiece := h.isSome_node? (place ++ [piece])
          rw [← find?_entries ha, ← find?_entries hb] at hpiece
          simp only [ih]
          split_ifs
          · rfl
          · rfl
          · rename_i entries others _ _
            cases hfirst : Dict.find? entries piece <;> cases hsecond : Dict.find? others piece <;>
              simp only [hfirst, hsecond, Option.isSome_none, Option.isSome_some, reduceCtorEq]
                at hpiece
            · rfl
            · rfl

include h in
theorem SameShape.locate_eq (path : Path) : a.locate path = b.locate path := by
  unfold locate
  split
  · exact h.walk_eq [] _
  · rfl

include h in
theorem SameShape.canonical?_eq (path : Path) : a.canonical? path = b.canonical? path := by
  rw [canonical?, h.locate_eq, canonical?]

include h in
/-- What a path leads to is a file in both, a directory in both, or nothing in both. -/
theorem SameShape.find?_map (path : Path) :
    ((a.find? path).map Node.sight).map Sight.isDirectory =
      ((b.find? path).map Node.sight).map Sight.isDirectory := by
  rw [find?, find?, h.locate_eq]
  cases b.locate path with
  | error _ => rfl
  | ok names => exact h names

include h in
theorem SameShape.exists?_eq (path : Path) : a.exists? path = b.exists? path := by
  have hfind := congrArg Option.isSome (h.find?_map path)
  simpa only [exists?, Option.isSome_map] using hfind

include h in
theorem SameShape.isFile_eq (path : Path) : a.isFile path = b.isFile path := by
  rw [isFile_eq_decide, h.find?_map, ← isFile_eq_decide]

include h in
theorem SameShape.isDirectory_eq (path : Path) : a.isDirectory path = b.isDirectory path := by
  rw [isDirectory_eq_decide, h.find?_map, ← isDirectory_eq_decide]

include h in
/-- References lead to the same components. -/
theorem SameShape.resolve?_eq (extension : Text) (dir reference : Path) :
    resolve? a extension dir reference = resolve? b extension dir reference := by
  have hpath : Reference.path a dir reference = Reference.path b dir reference := by
    rw [Reference.path, h.exists?_eq, Reference.path]
  simp only [resolve?, hpath, h.isDirectory_eq, h.isFile_eq, h.canonical?_eq]

end Shape

/-- Writing over a file keeps the shape. -/
theorem sameShape_write {tree : FileTree} {path : Path} {old : Content} {earlier : Stamp}
    (hfile : tree.sight (namesOf path) = some (.file old earlier)) (content : Content)
    (modified : Stamp) : SameShape tree (tree.write path content modified) := by
  have hpath : namesOf path ≠ [] := by
    intro hnil
    rw [hnil, sight_nil] at hfile
    exact absurd (Option.some.inj hfile) (by simp)
  obtain ⟨node, hnode, hsight⟩ := Option.map_eq_some_iff.1 hfile
  intro names
  rw [sight_write tree hpath]
  split_ifs with hself hbelow habove
  · rw [hself, hfile]
    rfl
  · obtain ⟨back, rfl⟩ := hbelow
    cases back with
    | nil => exact absurd (List.append_nil _) hself
    | cons name rest =>
      have hat : tree.node? (namesOf path) = some node := hnode
      rw [sight_eq, node?_append, hat, Option.bind_some]
      cases node with
      | file => rfl
      | directory => simp [Node.sight] at hsight
  · obtain ⟨back, hback⟩ := habove
    cases back with
    | nil => exact absurd (by simpa using hback) hself
    | cons name rest =>
      rw [← hback, sight_eq, node?_append] at hfile
      cases hnames : tree.node? names with
      | none => simp [hnames] at hfile
      | some other =>
        cases other with
        | file => simp [hnames, Node.at?] at hfile
        | directory => simp [sight_eq, hnames, Node.sight, Sight.isDirectory]
  · rfl

end FileTree

end ComponentMarkup

import ComponentMarkup.Proofs.FileTree.Names
import Mathlib.Data.Option.Basic

/-!
# What is seen of a file tree

Of a node one sees whether it is a directory, and of a file its content and its stamp. Writing a
file changes what is seen at its names, at the directories on the way, which are there afterwards,
and below it, where nothing is left; removing changes what is seen at and below the names removed.
Neither changes the stamps of directories; these are changed on their own.
-/

namespace ComponentMarkup

theorem Dict.find?_erase {α : Type} (dict : Dict α) (key other : Text) :
    Dict.find? (Dict.erase dict key) other =
      if key = other then none else Dict.find? dict other := by
  induction dict with
  | nil => simp [Dict.erase]
  | cons entry rest ih =>
    simp only [Dict.erase] at ih ⊢
    by_cases h : entry.1 = key
    · by_cases ho : key = other
      · simpa [h, ho] using ih
      · simpa [Dict.find?, h, ho] using ih
    · by_cases ho : key = other
      · subst ho
        simpa [Dict.find?, h] using ih
      · simp only [List.filter_cons, h, decide_true, if_true, Dict.find?, ne_eq, not_false_iff,
          if_neg ho] at ih ⊢
        rw [ih]

namespace FileTree

/-- What is seen of a node. -/
inductive Sight where
  | file (content : Content) (modified : Stamp)
  | directory
  deriving DecidableEq, Repr

/-- The stamp of what is seen, where a directory has this one. -/
def Sight.stamp (directoryStamp : Stamp) : Sight → Stamp
  | file _ modified => modified
  | directory => directoryStamp

namespace Node

def sight : Node → Sight
  | file content modified => .file content modified
  | directory _ => .directory

/-- What is seen at the end of names. -/
def sightAt (node : Node) (names : List Text) : Option Sight := (node.at? names).map sight

theorem at?_append (node : Node) (front back : List Text) :
    node.at? (front ++ back) = (node.at? front).bind fun below ↦ below.at? back := by
  induction front generalizing node with
  | nil => simp [at?]
  | cons name names ih =>
    cases node with
    | file content modified => simp [at?]
    | directory entries =>
      simp only [List.cons_append, at?]
      cases Dict.find? entries name with
      | none => rfl
      | some child => exact ih child

@[simp] theorem sightAt_nil (node : Node) : node.sightAt [] = some node.sight := by
  rw [sightAt, at?]
  rfl

@[simp] theorem sightAt_file_cons (content : Content) (modified : Stamp) (name : Text)
    (names : List Text) : (file content modified).sightAt (name :: names) = none := by
  rw [sightAt, at?]
  rfl

theorem sightAt_directory_cons (entries : List (Text × Node)) (name : Text) (names : List Text) :
    (directory entries).sightAt (name :: names) =
      (Dict.find? entries name).bind fun child ↦ child.sightAt names := by
  rw [sightAt, at?]
  cases Dict.find? entries name <;> rfl

/-- Below anything there is only what its entries lead to. -/
theorem sightAt_cons (node : Node) (name : Text) (names : List Text) :
    node.sightAt (name :: names) =
      (Dict.find? node.entries name).bind fun child ↦ child.sightAt names := by
  cases node with
  | file content modified => simp [entries]
  | directory entries => exact sightAt_directory_cons entries name names

theorem sightAt_empty_cons (name : Text) (names : List Text) :
    (directory []).sightAt (name :: names) = none := by
  rw [sightAt_directory_cons]
  rfl

/-- What is seen after a file has been put at the end of names. -/
theorem sightAt_put (node : Node) (names seen : List Text) (content : Content)
    (modified : Stamp) :
    (node.put names (.file content modified)).sightAt seen =
      if seen = names then some (.file content modified)
      else if names <+: seen then none
      else if seen <+: names then some .directory
      else node.sightAt seen := by
  induction names generalizing node seen with
  | nil =>
    rw [put]
    cases seen with
    | nil => simp [sight]
    | cons name seen => simp
  | cons name names ih =>
    rw [put]
    cases seen with
    | nil => simp [sight]
    | cons other seen =>
      rw [sightAt_directory_cons, Dict.find?_insert]
      by_cases h : name = other
      · subst h
        rw [if_pos rfl, Option.bind_some, ih]
        simp only [List.cons.injEq, true_and, List.cons_prefix_cons]
        split_ifs with hsame hbelow habove
        · rfl
        · rfl
        · rfl
        · rw [sightAt_cons]
          cases Dict.find? node.entries name with
          | some child => rfl
          | none =>
            cases seen with
            | nil => exact absurd List.nil_prefix habove
            | cons next seen => exact sightAt_empty_cons next seen
      · have ho : ¬other = name := fun ho ↦ h ho.symm
        rw [if_neg h, sightAt_cons]
        simp [List.cons_prefix_cons, h, ho]

/-- What is seen after the node at the end of names has been taken away. -/
theorem sightAt_remove (node : Node) {names : List Text} (hnames : names ≠ [])
    (seen : List Text) :
    (node.remove names).sightAt seen = if names <+: seen then none else node.sightAt seen := by
  induction names generalizing node seen with
  | nil => exact absurd rfl hnames
  | cons name names ih =>
    cases node with
    | file content modified =>
      cases seen <;> simp [remove]
    | directory entries =>
      cases seen with
      | nil =>
        cases names with
        | nil => simp [remove, sight]
        | cons next names =>
          rw [remove]
          · cases Dict.find? entries name <;> simp [sight]
          · simp
      | cons other seen =>
        cases names with
        | nil =>
          rw [remove, sightAt_directory_cons, sightAt_directory_cons, Dict.find?_erase]
          by_cases h : name = other
          · simp [h]
          · simp [h, List.cons_prefix_cons]
        | cons next names =>
          rw [remove]
          · rw [sightAt_directory_cons]
            by_cases h : name = other
            · subst h
              cases hfind : Dict.find? entries name with
              | none =>
                simp only
                rw [sightAt_directory_cons, hfind]
                simp
              | some child =>
                simp only
                rw [sightAt_directory_cons, Dict.find?_insert, if_pos rfl, Option.bind_some,
                  ih child (List.cons_ne_nil _ _)]
                simp [List.cons_prefix_cons]
            · have hprefix : ¬name :: next :: names <+: other :: seen := by
                simp [List.cons_prefix_cons, h]
              rw [if_neg hprefix]
              cases Dict.find? entries name with
              | none => exact sightAt_directory_cons entries other seen
              | some child =>
                simp only
                rw [sightAt_directory_cons, Dict.find?_insert, if_neg h]
          · simp

end Node

/-- What is seen at the end of names. -/
def sight (tree : FileTree) (names : List Text) : Option Sight :=
  (Node.directory tree.root).sightAt names

theorem sight_eq (tree : FileTree) (names : List Text) :
    tree.sight names = (tree.node? names).map Node.sight := rfl

theorem stampAt_eq (tree : FileTree) (names : List Text) :
    tree.stampAt names = (tree.sight names).bind (Sight.stamp (tree.directoryStamp names)) := by
  rw [stampAt, sight_eq]
  cases tree.node? names with
  | none => rfl
  | some node => cases node <;> rfl

@[simp] theorem sight_nil (tree : FileTree) : tree.sight [] = some .directory :=
  Node.sightAt_nil _

/-- What is seen after a file has been written. -/
theorem sight_write (tree : FileTree) {path : Path} (hpath : namesOf path ≠ [])
    (content : Content) (modified : Stamp) (names : List Text) :
    (tree.write path content modified).sight names =
      if names = namesOf path then some (.file content modified)
      else if namesOf path <+: names then none
      else if names <+: namesOf path then some .directory
      else tree.sight names := by
  obtain ⟨name, rest, hnames⟩ := List.exists_cons_of_ne_nil hpath
  have hroot : (Node.directory (tree.write path content modified).root) =
      (Node.directory tree.root).put (namesOf path) (.file content modified) := by
    rw [write, FileTree.put, hnames]
    rfl
  rw [sight, hroot, Node.sightAt_put]
  rfl

/-- What is seen after something has been removed. -/
theorem sight_remove (tree : FileTree) {path : Path} (hpath : namesOf path ≠ [])
    (names : List Text) :
    (tree.remove path).sight names =
      if namesOf path <+: names then none else tree.sight names := by
  have hroot : Node.directory (tree.remove path).root =
      (Node.directory tree.root).remove (namesOf path) := by
    obtain ⟨name, rest, hnames⟩ := List.exists_cons_of_ne_nil hpath
    rw [FileTree.remove, hnames]
    cases rest with
    | nil => rfl
    | cons next rest =>
      rw [Node.remove]
      · cases Dict.find? tree.root name <;> rfl
      · simp
  rw [sight, hroot, Node.sightAt_remove _ hpath]
  rfl

end FileTree

end ComponentMarkup

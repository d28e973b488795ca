import ComponentMarkup.Discovery
import ComponentMarkup.Proofs.Dict.Settled
import ComponentMarkup.Proofs.FileTree.Agreement
import ComponentMarkup.Proofs.FileTree.Walk
import Mathlib.Data.List.Lex
import Mathlib.Data.List.Sort

/-!
# What is discovered

In a directory every name stands once, and it is a name. The names that discovery gives then lead
from the directory to files, to a different one each, and so do the path through these names and the
reference that is made of them.
-/

namespace ComponentMarkup

open ComponentMarkup.Path

instance (piece : Text) : Decidable (IsName piece) :=
  decidable_of_iff (isIdle piece = false ∧ piece ≠ ['.', '.'] ∧ '/' ∉ piece)
    ⟨fun h ↦ ⟨h.1, h.2.1, h.2.2⟩, fun h ↦ ⟨h.not_idle, h.not_up, h.not_slash⟩⟩

namespace FileTree

mutual

/-- In every directory the entries have names, and each its own. -/
def Node.isProper : Node → Bool
  | .file .. => true
  | .directory entries => areProper entries

def areProper : Dict Node → Bool
  | [] => true
  | (name, node) :: rest =>
    decide (IsName name) && decide (name ∉ Dict.keys rest) && node.isProper && areProper rest

end

/-- The tree is one that a machine can have. -/
def IsProper (tree : FileTree) : Prop := areProper tree.root = true

instance (tree : FileTree) : Decidable tree.IsProper := inferInstanceAs (Decidable (_ = true))

section Proper

variable {name : Text} {node : Node} {entries : Dict Node}

theorem areProper_cons : areProper ((name, node) :: entries) = true ↔
    IsName name ∧ name ∉ Dict.keys entries ∧ node.isProper = true ∧ areProper entries = true := by
  simp only [areProper, Bool.and_eq_true, decide_eq_true_eq, and_assoc]

theorem mem_keys_of_find? (h : Dict.find? entries name = some node) : name ∈ Dict.keys entries := by
  rw [← Dict.contains_iff_mem_keys, Dict.contains, h]
  rfl

theorem isProper_of_find? (h : areProper entries = true)
    (hfind : Dict.find? entries name = some node) : node.isProper = true := by
  induction entries with
  | nil => simp at hfind
  | cons entry rest ih =>
    obtain ⟨_, _, hnode, hrest⟩ := areProper_cons.1 h
    rw [Dict.find?] at hfind
    split at hfind
    · rwa [← Option.some.inj hfind]
    · exact ih hrest hfind

theorem isProper_of_at? {names : List Text} {found : Node} (h : node.isProper = true)
    (hat : node.at? names = some found) : found.isProper = true := by
  induction names generalizing node with
  | nil =>
    rw [Node.at?] at hat
    rwa [← Option.some.inj hat]
  | cons name names ih =>
    cases node with
    | file => simp [Node.at?] at hat
    | directory entries =>
      obtain ⟨child, hchild, hrest⟩ := Option.bind_eq_some_iff.1 hat
      exact ih (isProper_of_find? h hchild) hrest

end Proper

end FileTree

namespace Discovery

open FileTree

/-! ## Files below a node -/

/-- Names lead from a node to a file. -/
structure LeadsToFile (node : Node) (names : List Text) : Prop where
  isName : ∀ name ∈ names, IsName name
  file : (node.sightAt names).isSome = true ∧ node.sightAt names ≠ some .directory

theorem LeadsToFile.cons {name : Text} {node : Node} {names : List Text} {entries : Dict Node}
    (h : LeadsToFile node names) (hname : IsName name)
    (hfind : Dict.find? entries name = some node) :
    LeadsToFile (.directory entries) (name :: names) where
  isName := List.forall_mem_cons.2 ⟨hname, h.isName⟩
  file := by
    rw [Node.sightAt_directory_cons, hfind]
    exact h.file

mutual

theorem leadsToFile_of_mem_filesBelow : ∀ {node : Node}, node.isProper = true →
    ∀ {names : List Text}, names ∈ filesBelow node → LeadsToFile node names
  | .file .., _, names, hmem => by
    obtain rfl : names = [] := List.mem_singleton.1 hmem
    exact ⟨List.forall_mem_nil _, rfl, by simp [Node.sightAt, Node.at?, Node.sight]⟩
  | .directory entries, h, names, hmem => by
    obtain ⟨name, rest, node, rfl, hname, hfind, hrest⟩ := exists_of_mem_filesIn h hmem
    exact hrest.cons hname hfind

theorem exists_of_mem_filesIn : ∀ {entries : Dict Node}, areProper entries = true →
    ∀ {names : List Text}, names ∈ filesIn entries → ∃ name rest node, names = name :: rest ∧
      IsName name ∧ Dict.find? entries name = some node ∧ LeadsToFile node rest
  | [], _, names, hmem => absurd hmem List.not_mem_nil
  | (name, node) :: entries, h, names, hmem => by
    obtain ⟨hname, hother, hnode, hentries⟩ := areProper_cons.1 h
    rcases List.mem_append.1 hmem with hmem | hmem
    · obtain ⟨rest, hrest, rfl⟩ := List.mem_map.1 hmem
      exact ⟨name, rest, node, rfl, hname, by rw [Dict.find?, if_pos rfl],
        leadsToFile_of_mem_filesBelow hnode hrest⟩
    · obtain ⟨other, rest, child, rfl, hisName, hfind, hchild⟩ :=
        exists_of_mem_filesIn hentries hmem
      refine ⟨other, rest, child, rfl, hisName, ?_, hchild⟩
      have hne : name ≠ other := fun heq ↦ hother (heq ▸ mem_keys_of_find? hfind)
      rw [Dict.find?, if_neg hne, hfind]

end

mutual

theorem nodup_filesBelow : ∀ {node : Node}, node.isProper = true → (filesBelow node).Nodup
  | .file .., _ => List.nodup_singleton _
  | .directory _, h => nodup_filesIn h

theorem nodup_filesIn : ∀ {entries : Dict Node}, areProper entries = true →
    (filesIn entries).Nodup
  | [], _ => List.nodup_nil
  | (name, node) :: entries, h => by
    obtain ⟨_, hother, hnode, hentries⟩ := areProper_cons.1 h
    refine List.nodup_append.2 ⟨?_, nodup_filesIn hentries, ?_⟩
    · exact (nodup_filesBelow hnode).map (List.cons_injective)
    · intro a ha b hb hab
      obtain ⟨rest, _, rfl⟩ := List.mem_map.1 ha
      obtain ⟨other, _, child, rfl, _, hfind, _⟩ := exists_of_mem_filesIn hentries hb
      obtain rfl := (List.cons.inj hab).1
      exact hother (mem_keys_of_find? hfind)

end

/-! ## Files below a directory -/

section Names

variable {tree : FileTree} {dir : Path} {extension : Text} {place names : List Text}

theorem mem_names {node : Node} (hfind : tree.find? dir = some node)
    (h : names ∈ Discovery.names tree dir extension) : names ∈ filesBelow node := by
  rw [Discovery.names, hfind] at h
  exact (List.mem_filter.1 (List.mem_mergeSort.1 h)).1

theorem isProper_of_find?_tree (hproper : tree.IsProper) {node : Node}
    (hfind : tree.find? dir = some node) : node.isProper = true := by
  unfold FileTree.find? at hfind
  split at hfind
  · have hroot : (Node.directory tree.root).isProper = true := hproper
    exact isProper_of_at? hroot hfind
  · simp at hfind

theorem namesLe_iff {a b : List Text} : namesLe a b = true ↔ a ≤ b := by
  simp [namesLe]

/-- Names are given in order. -/
theorem pairwise_names (tree : FileTree) (dir : Path) (extension : Text) :
    (Discovery.names tree dir extension).Pairwise (· ≤ ·) := by
  unfold Discovery.names
  split
  · exact List.Pairwise.nil
  · have hsorted (found : List (List Text)) :
        (found.mergeSort namesLe).Pairwise fun a b ↦ namesLe a b = true := by
      apply List.pairwise_mergeSort
      · intro a b c hab hbc
        exact namesLe_iff.2 ((namesLe_iff.1 hab).trans (namesLe_iff.1 hbc))
      · intro a b
        rw [Bool.or_eq_true, namesLe_iff, namesLe_iff]
        exact le_total a b
    exact (hsorted _).imp namesLe_iff.1

/-- What is given are the names of the files, once they stand in order. -/
theorem names_of_perm {found : List (List Text)}
    (hfound : ∃ node ∈ tree.find? dir, ((filesBelow node).filter fun names ↦
      hasExtension extension (pathTo dir names)).Perm found)
    (hordered : found.Pairwise fun a b ↦ namesLe a b = true) :
    Discovery.names tree dir extension = found := by
  obtain ⟨node, hfind, hperm⟩ := hfound
  refine List.Perm.eq_of_pairwise' (pairwise_names tree dir extension)
    (hordered.imp namesLe_iff.1) ?_
  rw [Discovery.names, hfind]
  exact (List.mergeSort_perm _ _).trans hperm

/-- No names are given twice. -/
theorem nodup_names (hproper : tree.IsProper) (dir : Path) (extension : Text) :
    (Discovery.names tree dir extension).Nodup := by
  unfold Discovery.names
  cases hfind : tree.find? dir with
  | none => exact List.nodup_nil
  | some node =>
    apply (List.mergeSort_perm _ _).nodup_iff.2
    exact (nodup_filesBelow (isProper_of_find?_tree hproper hfind)).filter _

theorem exists_locate_of_sight {sight : Sight} (h : (tree.find? dir).map Node.sight = some sight) :
    ∃ place, tree.locate dir = .ok place ∧ tree.sight place = some sight := by
  cases hlocate : tree.locate dir with
  | error error => simp [find?_of_locate_error hlocate] at h
  | ok place => exact ⟨place, rfl, by rwa [sight_of_locate hlocate] at h⟩

theorem exists_locate_of_isDirectory (h : tree.isDirectory dir = true) :
    ∃ place, tree.locate dir = .ok place ∧ tree.sight place = some .directory :=
  exists_locate_of_sight (isDirectory_iff.1 h)

theorem isAbsolute_joinWith (hnames : ∀ name ∈ names, IsName name) :
    isAbsolute (Text.joinWith ['/'] names) = false := by
  cases names with
  | nil => rfl
  | cons first rest =>
    have hfirst := hnames first List.mem_cons_self
    have hne : first ≠ [] := by
      rintro rfl
      exact absurd hfirst.not_idle (by decide)
    obtain ⟨more, hmore⟩ : ∃ more, Text.joinWith ['/'] (first :: rest) = first ++ more := by
      cases rest <;> simp [Text.joinWith, List.intercalate]
    have hrelative := isAbsolute_of_not_slash hfirst.not_slash
    rw [isAbsolute, decide_eq_false_iff_not] at hrelative ⊢
    rwa [hmore, List.head?_append_of_ne_nil _ hne]

theorem locate_pathTo (hnames : ∀ name ∈ names, IsName name) (hlocate : tree.locate dir = .ok place)
    (h : tree.sight (place ++ names) ≠ none) :
    tree.locate (pathTo dir names) = .ok (place ++ names) := by
  induction names generalizing dir place with
  | nil =>
    rw [List.append_nil]
    exact hlocate
  | cons name rest ih =>
    obtain ⟨hname, hrest⟩ := List.forall_mem_cons.1 hnames
    have hplace : tree.sight place = some .directory :=
      sight_of_append (List.cons_ne_nil name rest) h
    rw [List.append_cons] at h ⊢
    have hnext : tree.sight (place ++ [name]) ≠ none := by
      cases rest with
      | nil => simpa using h
      | cons next rest => simp [sight_of_append (List.cons_ne_nil next rest) h]
    have hstep : tree.locate (join dir name) = .ok (place ++ [name]) := by
      rw [locate_join hlocate hplace (isAbsolute_of_not_slash hname.not_slash),
        pieces_of_not_slash hname.not_slash]
      exact walk_names place (List.forall_mem_singleton.2 hname) hnext
    exact ih hrest hstep h

variable (hproper : tree.IsProper) (hlocate : tree.locate dir = .ok place)
  (hplace : tree.sight place = some .directory) (hmem : names ∈ Discovery.names tree dir extension)

include hproper hlocate hplace hmem

/-- Names that are given lead to a file, and not from there itself. -/
theorem exists_file_of_mem_names : names ≠ [] ∧ (∀ name ∈ names, IsName name) ∧
    ∃ content modified, tree.sight (place ++ names) = some (.file content modified) := by
  have hfind : tree.find? dir = tree.node? place := find?_of_locate hlocate
  cases hnode : tree.node? place with
  | none => simp [sight_eq, hnode] at hplace
  | some node =>
    rw [hnode] at hfind
    have hleads := leadsToFile_of_mem_filesBelow (isProper_of_find?_tree hproper hfind)
      (mem_names hfind hmem)
    have hsight : tree.sight (place ++ names) = node.sightAt names := by
      rw [sight_eq, node?_append, hnode]
      rfl
    refine ⟨?_, hleads.isName, ?_⟩
    · rintro rfl
      apply hleads.file.2
      rw [← hsight, List.append_nil, hplace]
    · rw [hsight]
      obtain ⟨hsome, hnot⟩ := hleads.file
      obtain ⟨sight, heq⟩ := Option.isSome_iff_exists.1 hsome
      rw [heq] at hnot ⊢
      cases sight with
      | file content modified => exact ⟨content, modified, rfl⟩
      | directory => exact absurd rfl hnot

/-- The reference made of the names leads to the file. -/
theorem locate_join_of_mem_names :
    tree.locate (join dir (Text.joinWith ['/'] names)) = .ok (place ++ names) := by
  obtain ⟨hne, hnames, content, modified, hfile⟩ :=
    exists_file_of_mem_names hproper hlocate hplace hmem
  rw [locate_join hlocate hplace (isAbsolute_joinWith hnames),
    pieces_joinWith hne fun name hname ↦ (hnames name hname).not_slash]
  exact walk_names place hnames (by simp [hfile])

/-- The path through the names leads to the file. -/
theorem locate_pathTo_of_mem_names : tree.locate (pathTo dir names) = .ok (place ++ names) := by
  obtain ⟨_, hnames, content, modified, hfile⟩ :=
    exists_file_of_mem_names hproper hlocate hplace hmem
  exact locate_pathTo hnames hlocate (by simp [hfile])

end Names

end Discovery

end ComponentMarkup

import ComponentMarkup.Proofs.FileTree.Lookup

/-!
# Trees that stamps tell apart

Two trees agree if names that have one stamp in both lead to the same in both. Where in addition
everything has a stamp, a path with one stamp in both trees is read in both or in neither, and to
the same text.

A write or a removal also changes the stamps of the directories on the way to its path. Trees that
follow each other agree as long as a write gives its file a stamp that the file never had, and no
directory on the way gets a stamp that a file had in its place.
-/

namespace ComponentMarkup.FileTree

open ComponentMarkup.Path

/-- Everything has a stamp. -/
def IsStamped (tree : FileTree) : Prop :=
  ∀ names, tree.stampAt names = none → tree.sight names = none

/-- Names with one stamp in both trees lead to the same. -/
def Agrees (a b : FileTree) : Prop :=
  ∀ names, a.stampAt names = b.stampAt names → a.sight names = b.sight names

theorem Agrees.refl (tree : FileTree) : Agrees tree tree := fun _ _ ↦ rfl

/-- Names of a directory on the way to a path. -/
def IsOnWay (path : Path) (names : List Text) : Prop :=
  names <+: namesOf path ∧ names ≠ namesOf path

instance (path : Path) (names : List Text) : Decidable (IsOnWay path names) :=
  inferInstanceAs (Decidable (_ ∧ _))

/-- Gives these stamps to the directories on the way to a path. -/
def dateWay (tree : FileTree) (path : Path) (stamps : List Text → Nat) : FileTree :=
  { tree with
    directoryStamp := fun names ↦
      if IsOnWay path names then some (stamps names) else tree.directoryStamp names }

/-- Writes a file with this stamp; the directories on the way have these stamps afterwards. -/
def writeDated (tree : FileTree) (path : Path) (content : Content) (stamp : Nat)
    (stamps : List Text → Nat) : FileTree :=
  (tree.write path content (some stamp)).dateWay path stamps

/-- Removes what a path names; the directories on the way have these stamps afterwards. -/
def removeDated (tree : FileTree) (path : Path) (stamps : List Text → Nat) : FileTree :=
  (tree.remove path).dateWay path stamps

/-- The names of a path never had this stamp in one of the trees. -/
def IsNewStamp (past : List FileTree) (path : Path) (stamp : Nat) : Prop :=
  ∀ earlier ∈ past, earlier.stampAt (namesOf path) ≠ some stamp

/-- No directory on the way to a path is given a stamp that a file had in its place in one of the
trees. -/
def IsNewWay (past : List FileTree) (path : Path) (stamps : List Text → Nat) : Prop :=
  ∀ names ∈ (namesOf path).inits, IsOnWay path names → ∀ earlier ∈ past,
    earlier.stampAt names = some (stamps names) → earlier.sight names = some .directory

instance (past : List FileTree) (path : Path) (stamp : Nat) :
    Decidable (IsNewStamp past path stamp) :=
  inferInstanceAs (Decidable (∀ _ ∈ _, _))

instance (past : List FileTree) (path : Path) (stamps : List Text → Nat) :
    Decidable (IsNewWay past path stamps) :=
  inferInstanceAs (Decidable (∀ _ ∈ _, _))

section Edits

variable {tree : FileTree} {path : Path} {stamps : List Text → Nat}

theorem sight_dateWay (names : List Text) :
    (tree.dateWay path stamps).sight names = tree.sight names := rfl

/-- Only directories on the way have other stamps. -/
theorem stampAt_dateWay (names : List Text) :
    (tree.dateWay path stamps).stampAt names =
      if IsOnWay path names ∧ tree.sight names = some .directory then some (stamps names)
      else tree.stampAt names := by
  rw [stampAt_eq, sight_dateWay, stampAt_eq, dateWay]
  by_cases hway : IsOnWay path names
  · cases tree.sight names with
    | none => simp
    | some sight => cases sight <;> simp [hway, Sight.stamp]
  · simp [hway]

theorem dateWay_of_namesOf_eq_nil (h : namesOf path = []) : tree.dateWay path stamps = tree := by
  simp [dateWay, IsOnWay, h]

theorem writeDated_of_namesOf_eq_nil (h : namesOf path = []) (content : Content) (stamp : Nat) :
    tree.writeDated path content stamp stamps = tree := by
  rw [writeDated, dateWay_of_namesOf_eq_nil h]
  simp [write, FileTree.put, h]

theorem removeDated_of_namesOf_eq_nil (h : namesOf path = []) :
    tree.removeDated path stamps = tree := by
  rw [removeDated, dateWay_of_namesOf_eq_nil h]
  simp [remove, h, Node.remove, Node.entries]

theorem stampAt_writeDated (hpath : namesOf path ≠ []) (content : Content) (stamp : Nat)
    (names : List Text) :
    (tree.writeDated path content stamp stamps).stampAt names =
      if names = namesOf path then some stamp
      else if namesOf path <+: names then none
      else if names <+: namesOf path then some (stamps names)
      else tree.stampAt names := by
  have hdirectories :
      (tree.write path content (some stamp)).directoryStamp = tree.directoryStamp := by
    unfold write put
    split <;> rfl
  rw [writeDated, stampAt_dateWay, stampAt_eq, sight_write tree hpath, hdirectories,
    stampAt_eq tree]
  by_cases hown : names = namesOf path
  · simp [hown, IsOnWay, Sight.stamp]
  · by_cases hbelow : namesOf path <+: names
    · simp [hown, hbelow]
    · by_cases hway : names <+: namesOf path <;> simp [IsOnWay, hown, hbelow, hway]

theorem stampAt_removeDated (hpath : namesOf path ≠ []) (names : List Text) :
    (tree.removeDated path stamps).stampAt names =
      if namesOf path <+: names then none
      else if IsOnWay path names ∧ tree.sight names = some .directory then some (stamps names)
      else tree.stampAt names := by
  have hdirectories : (tree.remove path).directoryStamp = tree.directoryStamp := rfl
  rw [removeDated, stampAt_dateWay, stampAt_eq, sight_remove tree hpath, hdirectories,
    stampAt_eq tree]
  by_cases hbelow : namesOf path <+: names <;> simp [hbelow]

theorem IsStamped.writeDated (h : tree.IsStamped) (content : Content) (stamp : Nat) :
    (tree.writeDated path content stamp stamps).IsStamped := by
  by_cases hpath : namesOf path = []
  · rwa [writeDated_of_namesOf_eq_nil hpath]
  · intro names hnone
    rw [stampAt_writeDated hpath] at hnone
    rw [FileTree.writeDated, sight_dateWay, sight_write tree hpath]
    split_ifs at hnone ⊢
    · rfl
    · exact h names hnone

theorem IsStamped.removeDated (h : tree.IsStamped) :
    (tree.removeDated path stamps).IsStamped := by
  by_cases hpath : namesOf path = []
  · rwa [removeDated_of_namesOf_eq_nil hpath]
  · intro names hnone
    rw [stampAt_removeDated hpath] at hnone
    rw [FileTree.removeDated, sight_dateWay, sight_remove tree hpath]
    split_ifs at hnone ⊢
    · rfl
    · exact h names hnone

/-- An earlier tree that agrees with the tree before a write agrees with the one after it. -/
theorem Agrees.writeDated {past : List FileTree} {earlier : FileTree} {stamp : Nat}
    (h : Agrees earlier tree) (hmem : earlier ∈ past) (hstamped : earlier.IsStamped)
    (hnew : IsNewStamp past path stamp) (hway : IsNewWay past path stamps) (content : Content) :
    Agrees earlier (tree.writeDated path content stamp stamps) := by
  by_cases hpath : namesOf path = []
  · rwa [writeDated_of_namesOf_eq_nil hpath]
  · intro names hsame
    rw [stampAt_writeDated hpath] at hsame
    rw [FileTree.writeDated, sight_dateWay, sight_write tree hpath]
    split_ifs at hsame ⊢ with hown hbelow hinit
    · rw [hown] at hsame
      exact absurd hsame (hnew earlier hmem)
    · exact hstamped names hsame
    · exact hway names ((List.mem_inits _ _).2 hinit) ⟨hinit, hown⟩ earlier hmem hsame
    · exact h names hsame

/-- An earlier tree that agrees with a tree agrees with what is left of it. -/
theorem Agrees.removeDated {past : List FileTree} {earlier : FileTree} (h : Agrees earlier tree)
    (hmem : earlier ∈ past) (hstamped : earlier.IsStamped) (hway : IsNewWay past path stamps) :
    Agrees earlier (tree.removeDated path stamps) := by
  by_cases hpath : namesOf path = []
  · rwa [removeDated_of_namesOf_eq_nil hpath]
  · intro names hsame
    rw [stampAt_removeDated hpath] at hsame
    rw [FileTree.removeDated, sight_dateWay, sight_remove tree hpath]
    split_ifs at hsame ⊢ with hbelow hdirectory
    · exact hstamped names hsame
    · obtain ⟨honWay, hsight⟩ := hdirectory
      rw [hsight]
      exact hway names ((List.mem_inits _ _).2 honWay.1) honWay earlier hmem hsame
    · exact h names hsame

end Edits

/-! ## What agreeing trees share -/

theorem stamp_of_locate {tree : FileTree} {path : Path} {names : List Text}
    (h : tree.locate path = .ok names) : tree.stamp path = tree.stampAt names := by
  rw [stamp, h]

theorem stamp_of_find?_eq_none {tree : FileTree} {path : Path} (h : tree.find? path = none) :
    tree.stamp path = none := by
  cases hlocate : tree.locate path with
  | error error => rw [stamp, hlocate]
  | ok names =>
    have hnode : tree.node? names = none := by simpa [FileTree.find?, hlocate] using h
    rw [stamp_of_locate hlocate, stampAt, hnode]

/-- What is not there has no stamp, and the other way round. -/
theorem find?_eq_none_of_stamp {tree : FileTree} (h : tree.IsStamped) {path : Path}
    (hstamp : tree.stamp path = none) : tree.find? path = none := by
  cases hlocate : tree.locate path with
  | error error => exact find?_of_locate_error hlocate
  | ok names =>
    rw [stamp_of_locate hlocate] at hstamp
    have hsight := h names hstamp
    rw [← sight_of_locate hlocate, Option.map_eq_none_iff] at hsight
    exact hsight

/-- A path with one stamp leads to the same in trees that agree. -/
theorem Agrees.find? {a b : FileTree} (h : Agrees a b) (ha : a.IsStamped) (hb : b.IsStamped)
    {path : Path} (hstamp : a.stamp path = b.stamp path) :
    (a.find? path).map Node.sight = (b.find? path).map Node.sight := by
  cases hla : a.locate path with
  | error error =>
    have hnone := find?_of_locate_error hla
    have hother : b.stamp path = none := by rw [← hstamp, stamp_of_find?_eq_none hnone]
    rw [hnone, find?_eq_none_of_stamp hb hother]
  | ok names =>
    cases hlb : b.locate path with
    | error error =>
      have hnone := find?_of_locate_error hlb
      have hother : a.stamp path = none := by rw [hstamp, stamp_of_find?_eq_none hnone]
      rw [hnone, find?_eq_none_of_stamp ha hother]
    | ok names' =>
      obtain rfl := locate_eq hla hlb
      rw [stamp_of_locate hla, stamp_of_locate hlb] at hstamp
      rw [sight_of_locate hla, sight_of_locate hlb]
      exact h names hstamp

section Sight

variable {tree other : FileTree} {path : Path}

theorem read_eq_ok_iff {text : Text} :
    tree.read path = .ok text ↔
      ∃ modified, (tree.find? path).map Node.sight = some (.file (.text text) modified) := by
  unfold read FileTree.find?
  cases tree.locate path with
  | error error => simp
  | ok names =>
    simp only
    cases tree.node? names with
    | none => simp
    | some node =>
      cases node with
      | directory entries => simp [Node.sight]
      | file content modified => cases content <;> simp [Node.sight]

theorem isFile_iff :
    tree.isFile path = true ↔
      ∃ content modified, (tree.find? path).map Node.sight = some (.file content modified) := by
  unfold isFile
  cases tree.find? path with
  | none => simp
  | some node => cases node <;> simp [Node.sight]

theorem isDirectory_iff :
    tree.isDirectory path = true ↔ (tree.find? path).map Node.sight = some .directory := by
  unfold isDirectory
  cases tree.find? path with
  | none => simp
  | some node => cases node <;> simp [Node.sight]

theorem read_of_sight_eq
    (h : (tree.find? path).map Node.sight = (other.find? path).map Node.sight) {text : Text}
    (hread : tree.read path = .ok text) : other.read path = .ok text := by
  rw [read_eq_ok_iff, ← h]
  exact read_eq_ok_iff.1 hread

/-- A text read from two trees, or none from either. -/
theorem toOption_read_of_sight_eq
    (h : (tree.find? path).map Node.sight = (other.find? path).map Node.sight) :
    (tree.read path).toOption = (other.read path).toOption := by
  cases htree : tree.read path with
  | ok text => rw [read_of_sight_eq h htree]
  | error error =>
    cases hother : other.read path with
    | ok text =>
      have := read_of_sight_eq h.symm hother
      rw [htree] at this
      simp at this
    | error error => rfl

end Sight

end ComponentMarkup.FileTree

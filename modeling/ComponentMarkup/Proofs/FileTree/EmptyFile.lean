import ComponentMarkup.Proofs.Component.Resolve
import ComponentMarkup.Proofs.FileTree.Walk

/-!
# One more file, which is empty

A tree with one more file, which is empty and stands in a directory that was there, is seen the same
everywhere else. A path either leads to the new file, and then it led nowhere before, or it leads
where it led. So no path becomes a directory or ceases to be one, no text is read that was not read
before, and a relative reference is resolved as before or, if it was resolved to nothing, possibly to
the new file.
-/

namespace ComponentMarkup

open ComponentMarkup.Path Component

namespace FileTree

/-- The second tree has one more file, which is empty. -/
structure AddsEmptyFile (a b : FileTree) (names : List Text) : Prop where
  absent : a.sight names = none
  empty : ∃ modified, b.sight names = some (.file (.text []) modified)
  same : ∀ others, others ≠ names → b.sight others = a.sight others

/-- Writing an empty file into a directory where nothing is under its name. -/
theorem addsEmptyFile_write {tree : FileTree} {path : Path} (hpath : path.IsCanonical)
    (habsent : tree.find? path = none) (hparent : tree.isDirectory (parent path) = true)
    (modified : Stamp) :
    AddsEmptyFile tree (tree.write path (.text []) modified) (namesOf path) := by
  obtain ⟨names, rfl, hnames⟩ := hpath
  have hsight : tree.sight names = none := by
    rw [← sight_find?_ofNames tree hnames, habsent]
    rfl
  rw [namesOf_ofNames hnames]
  rcases List.eq_nil_or_concat' names with rfl | ⟨front, name, rfl⟩
  · simp at hsight
  · have hfront : ∀ n ∈ front, IsName n := fun n hn ↦ hnames n (List.mem_append_left _ hn)
    have hdirectory : tree.sight front = some .directory := by
      rw [parent_ofNames front (hnames name (by simp)).not_slash] at hparent
      rw [← sight_find?_ofNames tree hfront]
      exact isDirectory_iff.1 hparent
    have hnamesOf := namesOf_ofNames hnames
    have hne : namesOf (ofNames (front ++ [name])) ≠ [] := by
      rw [hnamesOf]
      simp
    refine ⟨hsight, ⟨modified, ?_⟩, ?_⟩
    · rw [sight_write tree hne, hnamesOf, if_pos rfl]
    · intro others hothers
      rw [sight_write tree hne, hnamesOf, if_neg hothers]
      split_ifs with hbelow habove
      · obtain ⟨back, rfl⟩ := hbelow
        have hnone : tree.node? (front ++ [name]) = none := Option.map_eq_none_iff.1 hsight
        rw [sight_eq, node?_append, hnone]
        rfl
      · -- What stands before the new file stands before its directory or is that directory.
        rcases List.prefix_concat_iff.1 habove with heq | ⟨back, rfl⟩
        · exact absurd heq hothers
        · by_cases hback : back = []
          · rw [hback, List.append_nil] at hdirectory
            rw [hdirectory]
          · rw [sight_of_append hback (by rw [hdirectory]; simp)]
      · rfl

namespace AddsEmptyFile

variable {a b : FileTree} {names : List Text} (h : AddsEmptyFile a b names)

include h

/-- A walk that ends somewhere ends there in the tree with the new file. -/
theorem walk_eq_ok {place pieces found : List Text} (hwalk : walk a place pieces = .ok found) :
    walk b place pieces = .ok found := by
  induction pieces generalizing place with
  | nil => exact hwalk
  | cons piece rest ih =>
    have hsame {others : List Text} (hsome : a.sight others ≠ none) :
        b.sight others = a.sight others := by
      apply h.same
      rintro rfl
      exact hsome h.absent
    rw [walk_cons] at hwalk ⊢
    split at hwalk
    · rename_i hplace
      rw [hsame (by rw [hplace]; simp), hplace]
      simp only at hwalk ⊢
      by_cases hidle : isIdle piece = true
      · rw [if_pos hidle] at hwalk ⊢
        exact ih hwalk
      · rw [if_neg hidle] at hwalk ⊢
        by_cases hup : piece = ['.', '.']
        · rw [if_pos hup] at hwalk ⊢
          exact ih hwalk
        · rw [if_neg hup] at hwalk ⊢
          by_cases hpiece : (a.sight (place ++ [piece])).isSome = true
          · rw [if_pos hpiece] at hwalk
            rw [if_pos (by rw [hsame (Option.isSome_iff_ne_none.1 hpiece)]; exact hpiece)]
            exact ih hwalk
          · rw [if_neg hpiece] at hwalk
            simp at hwalk
    · simp at hwalk
    · simp at hwalk

/-- A walk ends at the new file or where it ended before. -/
theorem walk_eq_ok_or {place pieces found : List Text} (hwalk : walk b place pieces = .ok found) :
    walk a place pieces = .ok found ∨ found = names := by
  induction pieces generalizing place with
  | nil => exact Or.inl hwalk
  | cons piece rest ih =>
    obtain ⟨modified, hempty⟩ := h.empty
    rw [walk_cons] at hwalk
    split at hwalk
    · rename_i hplace
      have hne : place ≠ names := by
        rintro rfl
        simp [hempty] at hplace
      rw [walk_cons, ← h.same place hne, hplace]
      simp only at hwalk ⊢
      by_cases hidle : isIdle piece = true
      · rw [if_pos hidle] at hwalk ⊢
        exact ih hwalk
      · rw [if_neg hidle] at hwalk ⊢
        by_cases hup : piece = ['.', '.']
        · rw [if_pos hup] at hwalk ⊢
          exact ih hwalk
        · rw [if_neg hup] at hwalk ⊢
          by_cases hnew : place ++ [piece] = names
          · -- The piece names the new file, and nothing can follow it.
            rw [hnew, hempty, Option.isSome_some, if_pos rfl] at hwalk
            cases rest with
            | nil => exact Or.inr (Except.ok.inj hwalk).symm
            | cons next rest =>
              rw [walk_cons, hempty] at hwalk
              simp at hwalk
          · rw [h.same _ hnew] at hwalk
            split_ifs at hwalk ⊢
            exact ih hwalk
    · simp at hwalk
    · simp at hwalk

/-- A path leads to the new file, where it led nowhere before, or it leads where it led. -/
theorem locate_cases (path : Path) :
    (a.find? path = none ∧ b.locate path = .ok names) ∨
      ((b.locate path).toOption = (a.locate path).toOption ∧
        (b.find? path).map Node.sight = (a.find? path).map Node.sight) := by
  have hmono {found : List Text} (hfound : a.locate path = .ok found) :
      b.locate path = .ok found := by
    unfold locate at hfound ⊢
    split at hfound
    · exact h.walk_eq_ok hfound
    · simp at hfound
  have hcases {found : List Text} (hfound : b.locate path = .ok found) :
      a.locate path = .ok found ∨ found = names := by
    unfold locate at hfound ⊢
    split at hfound
    · exact h.walk_eq_ok_or hfound
    · simp at hfound
  cases hb : b.locate path with
  | error error =>
    cases ha : a.locate path with
    | ok found => simp [hmono ha] at hb
    | error other =>
      rw [find?_of_locate_error ha, find?_of_locate_error hb]
      exact Or.inr ⟨rfl, rfl⟩
  | ok found =>
    by_cases hnew : found = names
    · refine Or.inl ⟨?_, by rw [hnew]⟩
      cases ha : a.locate path with
      | error other => exact find?_of_locate_error ha
      | ok other =>
        obtain rfl := locate_eq ha hb
        rw [find?_of_locate ha, ← Option.map_eq_none_iff (f := Node.sight), ← sight_eq, hnew]
        exact h.absent
    · have ha := (hcases hb).resolve_right hnew
      rw [ha, sight_of_locate ha, sight_of_locate hb, h.same found hnew]
      exact Or.inr ⟨rfl, rfl⟩

theorem sight_of_locate_eq {path : Path} (hpath : b.locate path = .ok names) :
    ∃ modified, (b.find? path).map Node.sight = some (.file (.text []) modified) := by
  rw [sight_of_locate hpath]
  exact h.empty

theorem isDirectory_eq (path : Path) : b.isDirectory path = a.isDirectory path := by
  rcases h.locate_cases path with ⟨hnone, hnew⟩ | ⟨_, hsight⟩
  · obtain ⟨modified, hempty⟩ := h.sight_of_locate_eq hnew
    simp [isDirectory_eq_decide, hempty, hnone, Sight.isDirectory]
  · rw [isDirectory_eq_decide, hsight, ← isDirectory_eq_decide]

theorem textOf_eq (path : Path) : b.textOf path = a.textOf path := by
  rcases h.locate_cases path with ⟨hnone, hnew⟩ | ⟨_, hsight⟩
  · obtain ⟨modified, hempty⟩ := h.sight_of_locate_eq hnew
    have hb : b.read path = .ok [] := read_eq_ok_iff.2 ⟨modified, hempty⟩
    have ha : a.textOf path = [] := by
      rw [textOf]
      cases hread : a.read path with
      | error error => rfl
      | ok text =>
        obtain ⟨_, hfile⟩ := read_eq_ok_iff.1 hread
        simp [hnone] at hfile
    rw [ha, textOf, hb]
    rfl
  · rw [textOf, toOption_read_of_sight_eq hsight, textOf]

/-- A relative reference is resolved as before, or to the new file instead of to nothing. -/
theorem resolve?_cases (extension : Text) (dir : Path) {reference : Path}
    (hrelative : isAbsolute reference = false) :
    resolve? b extension dir reference = resolve? a extension dir reference ∨
      resolve? a extension dir reference = none ∧
        resolve? b extension dir reference = some (ofNames names) := by
  have hfile (path : Path) :
      (if b.isFile path then b.canonical? path else none) =
          (if a.isFile path then a.canonical? path else none) ∨
        (if a.isFile path then a.canonical? path else none) = none ∧
          (if b.isFile path then b.canonical? path else none) = some (ofNames names) := by
    rcases h.locate_cases path with ⟨hnone, hnew⟩ | ⟨hlocate, hsight⟩
    · obtain ⟨modified, hempty⟩ := h.sight_of_locate_eq hnew
      refine Or.inr ⟨?_, ?_⟩
      · simp [isFile, hnone]
      · rw [if_pos (isFile_iff.2 ⟨_, modified, hempty⟩), canonical?, hnew]
    · have hcanonical (tree : FileTree) (path : Path) :
          tree.canonical? path = (tree.locate path).toOption.map ofNames := by
        rw [canonical?]
        cases tree.locate path <;> rfl
      refine Or.inl ?_
      rw [isFile_eq_decide, hsight, ← isFile_eq_decide, hcanonical, hlocate, ← hcanonical]
  have hpath (tree : FileTree) := Reference.path_of_relative hrelative tree dir
  simp only [resolve?, hpath, h.isDirectory_eq]
  exact hfile _

end AddsEmptyFile

end FileTree

end ComponentMarkup

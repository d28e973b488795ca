import ComponentMarkup.FileTree
import Mathlib.Data.Char
import Mathlib.Data.List.Infix

/-!
# Names and canonical paths

Following a path ends at names that the path spells without looking at the tree: idle pieces are
left out and a step upwards takes the last name away. The tree only decides whether the end is
reached. Canonical paths are the paths through names, and two of them that have the same steps are
the same text.
-/

namespace ComponentMarkup

theorem Text.splitOn_eq (separator : Char) (text : Text) :
    Text.splitOn separator text = List.splitOn separator text := by
  induction text with
  | nil => rfl
  | cons c rest ih =>
    rw [List.splitOn_cons_eq_if_modifyHead]
    by_cases h : c = separator
    · simp [Text.splitOn, h, ih]
    · simp only [Text.splitOn, h, if_false, ih, beq_iff_eq]
      cases hs : List.splitOn separator rest with
      | nil => exact absurd hs (List.splitOn_ne_nil _ _)
      | cons piece pieces => rfl

theorem Text.not_mem_of_mem_splitOn {separator : Char} {text piece : Text}
    (h : piece ∈ Text.splitOn separator text) : separator ∉ piece := by
  induction text generalizing piece with
  | nil =>
    rw [Text.splitOn, List.mem_singleton] at h
    simp [h]
  | cons c rest ih =>
    simp only [Text.splitOn] at h
    split at h
    · rcases List.mem_cons.1 h with rfl | h
      · exact List.not_mem_nil
      · exact ih h
    · rename_i hc
      have hne : separator ≠ c := fun heq ↦ hc heq.symm
      split at h
      · rw [List.mem_singleton] at h
        simp [h, hne]
      · rename_i first others hs
        rcases List.mem_cons.1 h with rfl | h
        · have := ih (hs ▸ List.mem_cons_self)
          simp [hne, this]
        · exact ih (hs ▸ List.mem_cons_of_mem _ h)

/-- The pieces are made of the characters of the text. -/
theorem Text.subset_of_mem_splitOn {separator : Char} {text piece : Text}
    (h : piece ∈ Text.splitOn separator text) : piece ⊆ text := by
  induction text generalizing piece with
  | nil =>
    rw [Text.splitOn, List.mem_singleton] at h
    exact h ▸ List.nil_subset []
  | cons c rest ih =>
    simp only [Text.splitOn] at h
    split at h
    · rcases List.mem_cons.1 h with rfl | h
      · exact List.nil_subset _
      · exact List.subset_cons_of_subset c (ih h)
    · split at h
      · rw [List.mem_singleton.1 h]
        exact List.cons_subset_cons c (List.nil_subset rest)
      · rename_i first others hs
        rcases List.mem_cons.1 h with rfl | h
        · exact List.cons_subset_cons c (ih (hs ▸ List.mem_cons_self))
        · exact List.subset_cons_of_subset c (ih (hs ▸ List.mem_cons_of_mem _ h))

namespace Path

/-- A piece that names something in a directory. -/
structure IsName (piece : Text) : Prop where
  not_idle : isIdle piece = false
  not_up : piece ≠ ['.', '.']
  not_slash : '/' ∉ piece

/-- A path through names. -/
def IsCanonical (path : Path) : Prop :=
  ∃ names : List Text, path = ofNames names ∧ ∀ name ∈ names, IsName name

theorem pieces_of_not_slash {piece : Text} (h : '/' ∉ piece) : pieces piece = [piece] := by
  rw [pieces, Text.splitOn_eq, List.splitOn_eq_singleton]
  exact h

theorem pieces_joinWith {names : List Text} (hnames : names ≠ []) (h : ∀ name ∈ names, '/' ∉ name) :
    pieces (Text.joinWith ['/'] names) = names := by
  rw [pieces, Text.splitOn_eq]
  exact List.splitOn_intercalate '/' h hnames

theorem filter_pieces_joinWith {names : List Text} (h : ∀ name ∈ names, IsName name) :
    (pieces (Text.joinWith ['/'] names)).filter (!isIdle ·) = names := by
  by_cases hn : names = []
  · rw [hn]
    rfl
  · rw [pieces_joinWith hn fun name hname ↦ (h name hname).not_slash, List.filter_eq_self]
    intro name hname
    simp [(h name hname).not_idle]

theorem steps_ofNames {names : List Text} (h : ∀ name ∈ names, IsName name) :
    steps (ofNames names) = .root :: names.map .name := by
  have hmap : names.map stepOf = names.map .name := by
    apply List.map_congr_left
    intro name hname
    simp [stepOf, (h name hname).not_up]
  show .root :: stepsOf (pieces (Text.joinWith ['/'] names)) = _
  rw [stepsOf, filter_pieces_joinWith h, hmap]

/-- Canonical paths with the same steps are the same. -/
theorem IsCanonical.eq_of_same {p q : Path} (hp : IsCanonical p) (hq : IsCanonical q)
    (h : same p q = true) : p = q := by
  obtain ⟨a, rfl, ha⟩ := hp
  obtain ⟨b, rfl, hb⟩ := hq
  rw [same, decide_eq_true_eq, steps_ofNames ha, steps_ofNames hb, List.cons.injEq] at h
  have hab : a = b := List.map_injective_iff.2 (fun _ _ h ↦ Step.name.inj h) h.2
  rw [hab]

end Path

open ComponentMarkup.Path

namespace FileTree

/-- Where pieces lead from a place, if they lead anywhere. -/
def follow (place : List Text) : List Text → List Text
  | [] => place
  | piece :: rest =>
    if isIdle piece then follow place rest
    else if piece = ['.', '.'] then follow place.dropLast rest
    else follow (place ++ [piece]) rest

theorem walk_eq_follow {tree : FileTree} {place pieces names : List Text}
    (h : walk tree place pieces = .ok names) : names = follow place pieces := by
  induction pieces generalizing place with
  | nil => simpa [walk, follow, eq_comm] using h
  | cons piece rest ih =>
    simp only [walk] at h
    split at h
    · simp only [follow]
      split at h
      · rename_i hi
        simpa [hi] using ih h
      · rename_i hi
        split at h
        · rename_i hu
          rw [if_neg hi, if_pos hu]
          exact ih h
        · rename_i hu
          split at h
          · simpa [hi, hu] using ih h
          · simp at h
    · simp at h
    · simp at h

theorem isName_follow {place pieces : List Text} (hplace : ∀ name ∈ place, IsName name)
    (hpieces : ∀ piece ∈ pieces, '/' ∉ piece) : ∀ name ∈ follow place pieces, IsName name := by
  induction pieces generalizing place with
  | nil => exact hplace
  | cons piece rest ih =>
    have hrest : ∀ piece ∈ rest, '/' ∉ piece := fun p hp ↦ hpieces p (List.mem_cons_of_mem _ hp)
    simp only [follow]
    split
    · exact ih hplace hrest
    · rename_i hi
      split
      · exact ih (fun name hname ↦ hplace name (List.mem_of_mem_dropLast hname)) hrest
      · rename_i hu
        apply ih _ hrest
        intro name hname
        rcases List.mem_append.1 hname with hname | hname
        · exact hplace name hname
        · rw [List.mem_singleton] at hname
          subst hname
          exact ⟨by simpa using hi, hu, hpieces name List.mem_cons_self⟩

theorem isName_of_locate {tree : FileTree} {path : Path} {names : List Text}
    (h : tree.locate path = .ok names) : ∀ name ∈ names, IsName name := by
  unfold locate at h
  split at h
  · rw [walk_eq_follow h]
    exact isName_follow (by simp) fun piece hpiece ↦ Text.not_mem_of_mem_splitOn hpiece
  · simp at h

theorem isCanonical_of_canonical? {tree : FileTree} {path canonical : Path}
    (h : tree.canonical? path = some canonical) : IsCanonical canonical := by
  unfold canonical? at h
  split at h
  · rename_i names hnames
    rw [Option.some.injEq] at h
    exact ⟨names, h.symm, isName_of_locate hnames⟩
  · simp at h

end FileTree

end ComponentMarkup

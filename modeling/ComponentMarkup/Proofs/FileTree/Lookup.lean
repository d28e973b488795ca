import ComponentMarkup.Proofs.FileTree.Sight
import ComponentMarkup.Reference
import ComponentMarkup.Segment

/-!
# Looking paths up

Where a path leads depends on the path alone; the tree decides whether one gets there. A path that
never goes upwards is followed to a file if the file is there: all that stands before it on the way
are its directories. A canonical path leads to its names.
-/

namespace ComponentMarkup

theorem Text.splitOn_append_cons (separator : Char) (a b : Text) :
    Text.splitOn separator (a ++ separator :: b) =
      Text.splitOn separator a ++ Text.splitOn separator b := by
  induction a with
  | nil => simp [Text.splitOn]
  | cons c a ih =>
    simp only [List.cons_append, Text.splitOn, ih]
    split
    · rfl
    · cases hs : Text.splitOn separator a with
      | nil =>
        rw [Text.splitOn_eq] at hs
        exact absurd hs (List.splitOn_ne_nil _ _)
      | cons piece pieces => rfl

namespace Path

/-- A path that never goes upwards. -/
def IsDownward (path : Path) : Prop := ['.', '.'] ∉ pieces path

instance (path : Path) : Decidable path.IsDownward :=
  inferInstanceAs (Decidable (_ ∉ _))

theorem isDownward_append_cons {a b : Path} :
    IsDownward (a ++ '/' :: b) ↔ IsDownward a ∧ IsDownward b := by
  simp [IsDownward, pieces, Text.splitOn_append_cons]

theorem isDownward_nil : IsDownward [] := by decide

theorem IsCanonical.isDownward {path : Path} (h : IsCanonical path) : IsDownward path := by
  obtain ⟨names, rfl, hnames⟩ := h
  have hroot : ofNames names = [] ++ '/' :: Text.joinWith ['/'] names := rfl
  rw [hroot, isDownward_append_cons]
  refine ⟨isDownward_nil, fun hup ↦ ?_⟩
  have hmem : ['.', '.'] ∈ (pieces (Text.joinWith ['/'] names)).filter (!isIdle ·) :=
    List.mem_filter.2 ⟨hup, by decide⟩
  rw [filter_pieces_joinWith hnames] at hmem
  exact (hnames _ hmem).not_up rfl

theorem IsDownward.parent {path : Path} (h : IsDownward path) : IsDownward (parent path) := by
  let name := (path.reverse.takeWhile (· ≠ '/')).reverse
  let front := (path.reverse.dropWhile (· ≠ '/')).reverse
  have hpath : path = front ++ name := by
    rw [← List.reverse_append, List.takeWhile_append_dropWhile, List.reverse_reverse]
  cases hfront : path.reverse.dropWhile (· ≠ '/') with
  | nil =>
    rw [Path.parent, hfront]
    exact isDownward_nil
  | cons c rest =>
    have hc : c = '/' := by
      have := List.head?_dropWhile_not (fun c : Char ↦ decide (c ≠ '/')) path.reverse
      rw [hfront] at this
      simpa using this
    have hlast : front = rest.reverse ++ ['/'] := by
      simp only [front, hfront, hc, List.reverse_cons]
    have hrest : IsDownward rest.reverse := by
      rw [hpath, hlast, List.append_assoc, List.singleton_append, isDownward_append_cons] at h
      exact h.1
    rw [Path.parent, hfront, hc, List.reverse_cons]
    cases hr : rest.reverse with
    | nil => decide
    | cons d others =>
      rw [hr] at hrest
      have hdrop : (d :: (others ++ ['/'])).dropLast = d :: others := by
        rw [← List.cons_append, List.dropLast_concat]
      simpa [hdrop] using hrest

theorem join_relative {dir path : Path} (hdir : dir ≠ []) (hpath : isAbsolute path = false) :
    ∃ front, join dir path = front ++ '/' :: path ∧ (dir = front ∨ dir = front ++ ['/']) := by
  unfold join
  rw [hpath, Bool.false_or, if_neg (by simpa using hdir)]
  split_ifs with hlast
  · obtain ⟨front, rfl⟩ := List.getLast?_eq_some_iff.1 hlast
    exact ⟨front, by simp, Or.inr rfl⟩
  · exact ⟨dir, rfl, Or.inl rfl⟩

theorem IsDownward.join {dir path : Path} (hdir : IsDownward dir) (hpath : IsDownward path)
    (hrelative : isAbsolute path = false) : IsDownward (join dir path) := by
  by_cases hempty : dir = []
  · simpa [Path.join, hempty] using hpath
  · obtain ⟨front, hjoin, hfront⟩ := join_relative hempty hrelative
    rw [hjoin, isDownward_append_cons]
    rcases hfront with rfl | rfl
    · exact ⟨hdir, hpath⟩
    · exact ⟨(isDownward_append_cons.1 hdir).1, hpath⟩

end Path

open ComponentMarkup.Path

namespace FileTree

/-- Where an absolute path leads. -/
theorem locate_eq {a b : FileTree} {path : Path} {names names' : List Text}
    (ha : a.locate path = .ok names) (hb : b.locate path = .ok names') : names = names' := by
  unfold locate at ha hb
  split at ha
  · rw [walk_eq_follow ha, walk_eq_follow hb]
  · simp at ha

theorem find?_of_locate {tree : FileTree} {path : Path} {names : List Text}
    (h : tree.locate path = .ok names) : tree.find? path = tree.node? names := by
  rw [find?, h]

theorem find?_of_locate_error {tree : FileTree} {path : Path} {error : ReadError}
    (h : tree.locate path = .error error) : tree.find? path = none := by
  rw [find?, h]

/-- What a path leads to is seen at the names that it leads to. -/
theorem sight_of_locate {tree : FileTree} {path : Path} {names : List Text}
    (h : tree.locate path = .ok names) : (tree.find? path).map Node.sight = tree.sight names := by
  rw [find?_of_locate h, sight_eq]

theorem node?_append (tree : FileTree) (front back : List Text) :
    tree.node? (front ++ back) = (tree.node? front).bind fun node ↦ node.at? back :=
  Node.at?_append _ front back

/-- Pieces that do not go upwards lead further down. -/
theorem exists_follow_eq {pieces : List Text} (h : ['.', '.'] ∉ pieces) (place : List Text) :
    ∃ back, follow place pieces = place ++ back := by
  induction pieces generalizing place with
  | nil => exact ⟨[], (List.append_nil place).symm⟩
  | cons piece rest ih =>
    simp only [List.mem_cons, not_or] at h
    have hup : piece ≠ ['.', '.'] := fun heq ↦ h.1 heq.symm
    rw [follow, if_neg hup]
    split
    · exact ih h.2 place
    · obtain ⟨back, hback⟩ := ih h.2 (place ++ [piece])
      exact ⟨piece :: back, by rw [hback, List.append_assoc, List.singleton_append]⟩

/-- Pieces that lead to a file in one tree and do not go upwards lead to the same names wherever
something is there. -/
theorem walk_of_isFile {a b : FileTree} {place pieces names : List Text}
    (hpieces : ['.', '.'] ∉ pieces) (ha : walk a place pieces = .ok names)
    (hafile : a.sight names ≠ some .directory) (hb : b.sight names ≠ none) :
    walk b place pieces = .ok names := by
  induction pieces generalizing place with
  | nil => exact ha
  | cons piece rest ih =>
    obtain ⟨back, hback⟩ := exists_follow_eq hpieces place
    rw [← walk_eq_follow ha] at hback
    simp only [List.mem_cons, not_or] at hpieces
    have hup : piece ≠ ['.', '.'] := fun h ↦ hpieces.1 h.symm
    simp only [walk] at ha
    split at ha
    · rename_i entries hentries
      have hne : back ≠ [] := by
        rintro rfl
        rw [hback, List.append_nil, sight_eq, hentries] at hafile
        exact hafile rfl
      -- What stands before the end of the names is a directory in the other tree too.
      have hbnode := hb
      obtain ⟨name, back, rfl⟩ := List.exists_cons_of_ne_nil hne
      rw [hback, sight_eq, node?_append] at hbnode
      cases hplace : b.node? place with
      | none => simp [hplace] at hbnode
      | some node =>
        cases node with
        | file content modified => simp [hplace, Node.at?] at hbnode
        | directory entries' =>
          simp only [walk, hplace]
          split at ha
          · rename_i hidle
            rw [if_pos hidle]
            exact ih hpieces.2 ha
          · rename_i hidle
            rw [if_neg hidle, if_neg hup]
            split at ha
            · obtain ⟨below, hbelow⟩ := exists_follow_eq hpieces.2 (place ++ [piece])
              rw [← walk_eq_follow ha, hback, List.append_assoc, List.append_cancel_left_eq,
                List.singleton_append, List.cons.injEq] at hbelow
              rw [hbelow.1, hplace, Option.bind_some, Node.at?] at hbnode
              cases hfind : Dict.find? entries' piece with
              | none => simp [hfind] at hbnode
              | some child => exact ih hpieces.2 ha
            · simp at ha
    · simp at ha
    · simp at ha

theorem locate_of_isFile {a b : FileTree} {path : Path} {names : List Text}
    (hpath : path.IsDownward) (ha : a.locate path = .ok names)
    (hafile : a.sight names ≠ some .directory) (hb : b.sight names ≠ none) :
    b.locate path = .ok names := by
  unfold locate at ha ⊢
  split at ha
  · rename_i rest
    have hrest : IsDownward rest := (isDownward_append_cons (a := [])).1 hpath |>.2
    exact walk_of_isFile hrest ha hafile hb
  · simp at ha

theorem walk_names {tree : FileTree} (place : List Text) {names : List Text}
    (hnames : ∀ name ∈ names, IsName name) (h : tree.sight (place ++ names) ≠ none) : walk tree place names = .ok (place ++ names) := by
  induction names generalizing place with
  | nil => simp [walk]
  | cons name rest ih =>
    have hname := hnames name List.mem_cons_self
    have hrest := ih (place ++ [name]) (fun n hn ↦ hnames n (List.mem_cons_of_mem _ hn))
      (by simpa using h)
    rw [sight_eq, node?_append] at h
    cases hplace : tree.node? place with
    | none => simp [hplace] at h
    | some node =>
      cases node with
      | file content modified => simp [hplace, Node.at?] at h
      | directory entries =>
        rw [hplace, Option.bind_some, Node.at?] at h
        cases hfind : Dict.find? entries name with
        | none => simp [hfind] at h
        | some child =>
          rw [walk, hplace]
          simp only [hname.not_idle, hname.not_up, hfind, if_false, Bool.false_eq_true]
          rw [hrest, List.append_assoc, List.singleton_append]

/-- A canonical path leads to its names. -/
theorem locate_ofNames {tree : FileTree} {names : List Text} (hnames : ∀ name ∈ names, IsName name)
    (h : tree.sight names ≠ none) : tree.locate (ofNames names) = .ok names := by
  show walk tree [] (pieces (Text.joinWith ['/'] names)) = .ok names
  by_cases hn : names = []
  · subst hn
    rfl
  · rw [pieces_joinWith hn fun name hname ↦ (hnames name hname).not_slash]
    exact walk_names [] hnames h

theorem follow_names {names : List Text} (hnames : ∀ name ∈ names, IsName name)
    (place : List Text) : follow place names = place ++ names := by
  induction names generalizing place with
  | nil => exact (List.append_nil place).symm
  | cons name rest ih =>
    have hname := hnames name List.mem_cons_self
    have hrest := ih (fun n hn ↦ hnames n (List.mem_cons_of_mem _ hn)) (place ++ [name])
    simp only [follow, hname.not_idle, hname.not_up, if_false, Bool.false_eq_true]
    rw [hrest, List.append_assoc, List.singleton_append]

theorem follow_pieces_ofNames {names : List Text} (hnames : ∀ name ∈ names, IsName name) :
    follow [] (pieces (Text.joinWith ['/'] names)) = names := by
  by_cases hn : names = []
  · subst hn
    rfl
  · rw [pieces_joinWith hn fun name hname ↦ (hnames name hname).not_slash, follow_names hnames,
      List.nil_append]

/-- A canonical path is the canonical path of what it leads to. -/
theorem canonical?_of_exists {tree : FileTree} {path : Path} (hpath : path.IsCanonical)
    (h : tree.exists? path = true) : tree.canonical? path = some path := by
  obtain ⟨names, rfl, hnames⟩ := hpath
  unfold exists? find? at h
  unfold canonical?
  cases hlocate : tree.locate (ofNames names) with
  | error error => simp [hlocate] at h
  | ok found =>
    have hfound : found = names := by
      have hwalk : walk tree [] (pieces (Text.joinWith ['/'] names)) = .ok found := hlocate
      rw [walk_eq_follow hwalk, follow_pieces_ofNames hnames]
    rw [hfound]

end FileTree

end ComponentMarkup

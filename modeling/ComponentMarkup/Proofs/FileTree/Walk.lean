import ComponentMarkup.Proofs.FileTree.Shape

/-!
# Walking through a tree

What is seen of a tree decides where a walk leads. A relative reference is walked from where its
directory leads, and of a canonical path one sees what is at its names.
-/

namespace ComponentMarkup

theorem Text.joinWith_concat {separator : Text} {front : List Text} (hfront : front ≠ [])
    (piece : Text) :
    Text.joinWith separator (front ++ [piece]) = Text.joinWith separator front ++ separator ++ piece := by
  induction front with
  | nil => exact absurd rfl hfront
  | cons first rest ih =>
    cases rest with
    | nil => simp [Text.joinWith, List.intercalate]
    | cons next rest =>
      have hrest := ih (List.cons_ne_nil next rest)
      simp only [Text.joinWith, List.intercalate, List.cons_append, List.intersperse_cons_cons,
        List.flatten_cons, List.append_assoc] at hrest ⊢
      rw [hrest]

namespace Path

theorem ofNames_singleton (name : Text) : ofNames [name] = '/' :: name := by
  simp [ofNames, Text.joinWith, List.intercalate]

theorem ofNames_concat {front : List Text} (hfront : front ≠ []) (name : Text) :
    ofNames (front ++ [name]) = ofNames front ++ '/' :: name := by
  rw [ofNames, Text.joinWith_concat hfront, ofNames]
  simp

theorem parent_append_cons (front : Text) {name : Text} (hname : '/' ∉ name) :
    parent (front ++ '/' :: name) = if front = [] then ['/'] else front := by
  have hreverse : (front ++ '/' :: name).reverse.dropWhile (· ≠ '/') = '/' :: front.reverse := by
    rw [List.reverse_append, List.reverse_cons, List.append_assoc, List.dropWhile_append_of_pos]
    · simp
    · intro c hc
      have : c ≠ '/' := by
        rintro rfl
        exact hname (List.mem_reverse.1 hc)
      simpa using this
  rw [parent, hreverse, List.reverse_cons, List.reverse_reverse]
  cases front with
  | nil => rfl
  | cons c rest =>
    rw [if_neg (List.cons_ne_nil c rest)]
    split
    · rename_i h
      simp at h
    · exact List.dropLast_concat

/-- The directory of a canonical path. -/
theorem parent_ofNames (front : List Text) {name : Text} (hname : '/' ∉ name) :
    parent (ofNames (front ++ [name])) = ofNames front := by
  by_cases hfront : front = []
  · rw [hfront, List.nil_append, ofNames_singleton]
    exact parent_append_cons [] hname
  · rw [ofNames_concat hfront, parent_append_cons _ hname, if_neg (by simp [ofNames])]

theorem isAbsolute_of_not_slash {piece : Text} (h : '/' ∉ piece) : isAbsolute piece = false := by
  cases piece with
  | nil => rfl
  | cons c rest =>
    have hc : c ≠ '/' := by
      rintro rfl
      exact h List.mem_cons_self
    simpa [isAbsolute] using hc

theorem join_ofNames {front : List Text} (hfront : ∀ name ∈ front, IsName name) {piece : Text}
    (hpiece : '/' ∉ piece) : join (ofNames front) piece = ofNames (front ++ [piece]) := by
  have hrelative := isAbsolute_of_not_slash hpiece
  have hempty : (ofNames front).isEmpty = false := rfl
  rw [join, hrelative, hempty, Bool.or_false, if_neg Bool.false_ne_true]
  rcases List.eq_nil_or_concat' front with rfl | ⟨init, last, rfl⟩
  · exact (ofNames_singleton piece).symm
  · have hlast : IsName last := hfront last (by simp)
    have hend : (ofNames (init ++ [last])).getLast? ≠ some '/' := by
      have hmem : last ≠ [] := by
        rintro rfl
        exact absurd hlast.not_idle (by decide)
      have hsuffix : ∃ before, ofNames (init ++ [last]) = before ++ last := by
        by_cases hinit : init = []
        · exact ⟨['/'], by rw [hinit, List.nil_append, ofNames_singleton]; rfl⟩
        · exact ⟨ofNames init ++ ['/'], by rw [ofNames_concat hinit]; simp⟩
      obtain ⟨before, hbefore⟩ := hsuffix
      rw [hbefore, List.getLast?_append_of_ne_nil _ hmem]
      intro h
      exact hlast.not_slash (List.mem_of_getLast? h)
    have hne : init ++ [last] ≠ [] := by simp
    rw [if_neg hend, ofNames_concat hne]

end Path

open ComponentMarkup.Path

namespace FileTree

theorem namesOf_ofNames {names : List Text} (hnames : ∀ name ∈ names, IsName name) :
    namesOf (ofNames names) = names := by
  have hpieces : pieces (ofNames names) = [] :: pieces (Text.joinWith ['/'] names) := by
    simp [pieces, ofNames, Text.splitOn]
  rw [namesOf, hpieces, List.filter_cons]
  exact filter_pieces_joinWith hnames

/-- A step of a walk, by what is seen. -/
theorem walk_cons (tree : FileTree) (place : List Text) (piece : Text) (rest : List Text) :
    walk tree place (piece :: rest) =
      match tree.sight place with
      | some .directory =>
        if isIdle piece then walk tree place rest
        else if piece = ['.', '.'] then walk tree place.dropLast rest
        else if (tree.sight (place ++ [piece])).isSome then walk tree (place ++ [piece]) rest
        else .error .notFound
      | some (.file ..) => .error .notDirectory
      | none => .error .notFound := by
  rw [walk, sight_eq]
  cases hplace : tree.node? place with
  | none => rfl
  | some node =>
    cases node with
    | file content modified => rfl
    | directory entries =>
      have hentry : (tree.sight (place ++ [piece])).isSome = (Dict.find? entries piece).isSome := by
        rw [sight_eq, Option.isSome_map, find?_entries hplace]
      simp only [Option.map_some, Node.sight, hentry]
      cases Dict.find? entries piece <;> rfl

theorem walk_append (tree : FileTree) (place front back : List Text) :
    walk tree place (front ++ back) =
      (walk tree place front).bind fun names ↦ walk tree names back := by
  induction front generalizing place with
  | nil => rfl
  | cons piece rest ih =>
    rw [List.cons_append, walk_cons, walk_cons]
    cases tree.sight place with
    | none => rfl
    | some sight =>
      cases sight with
      | file => rfl
      | directory =>
        simp only [ih]
        split_ifs <;> rfl

/-- What stands behind a slash is walked from where the front leads. -/
theorem locate_append_slash (tree : FileTree) (front back : Path) :
    tree.locate ('/' :: front ++ '/' :: back) =
      (walk tree [] (pieces front)).bind fun names ↦ walk tree names (pieces back) := by
  show walk tree [] (pieces (front ++ '/' :: back)) = _
  rw [pieces, Text.splitOn_append_cons, walk_append]
  rfl

theorem locate_nil (tree : FileTree) : tree.locate [] = .error .notFound := rfl

/-- A relative reference is walked from where its directory leads. -/
theorem locate_join {tree : FileTree} {dir reference : Path} {place : List Text}
    (hdir : tree.locate dir = .ok place) (hplace : tree.sight place = some .directory)
    (hrelative : isAbsolute reference = false) :
    tree.locate (join dir reference) = walk tree place (pieces reference) := by
  have hne : dir ≠ [] := by
    rintro rfl
    simp [locate_nil] at hdir
  obtain ⟨front, hjoin, hfront⟩ := join_relative hne hrelative
  rw [hjoin]
  cases front with
  | nil =>
    have hroot : dir = ['/'] := by simpa [hne] using hfront
    rw [hroot] at hdir
    obtain rfl : [] = place := Except.ok.inj hdir
    rfl
  | cons c front =>
    have hslash : c = '/' := by
      by_contra hc
      have : tree.locate dir = .error .notFound := by
        rcases hfront with rfl | rfl <;> · unfold locate; split <;> simp_all
      simp [this] at hdir
    subst hslash
    rw [locate_append_slash]
    rcases hfront with rfl | rfl
    · have hwalk : walk tree [] (pieces front) = .ok place := hdir
      rw [hwalk]
      rfl
    · -- A slash at the end is an idle piece, which leads nowhere.
      have hslash : '/' :: front ++ ['/'] = '/' :: front ++ '/' :: [] := rfl
      rw [hslash, locate_append_slash] at hdir
      cases hwalk : walk tree [] (pieces front) with
      | error error => simp [hwalk, Except.bind] at hdir
      | ok names =>
        rw [hwalk] at hdir
        have hidle : walk tree names [[]] = .ok place := hdir
        rw [walk_cons] at hidle
        split at hidle
        · obtain rfl : names = place := by simpa [isIdle, walk] using hidle
          rfl
        · simp at hidle
        · simp at hidle

/-- What one sees at a canonical path is what is at its names. -/
theorem sight_find?_ofNames (tree : FileTree) {names : List Text}
    (hnames : ∀ name ∈ names, IsName name) :
    (tree.find? (ofNames names)).map Node.sight = tree.sight names := by
  cases hlocate : tree.locate (ofNames names) with
  | ok found =>
    have hwalk : walk tree [] (pieces (Text.joinWith ['/'] names)) = .ok found := hlocate
    have hfound : found = names := by
      rw [walk_eq_follow hwalk, follow_pieces_ofNames hnames]
    rw [sight_of_locate hlocate, hfound]
  | error error =>
    rw [find?_of_locate_error hlocate]
    by_contra hsight
    rw [locate_ofNames hnames fun h ↦ hsight (by rw [h]; rfl)] at hlocate
    simp at hlocate

/-- The text of a file; a file that cannot be read has none. -/
def textOf (tree : FileTree) (path : Path) : Text := (tree.read path).toOption.getD []

/-- What stands before something is a directory. -/
theorem sight_of_append {tree : FileTree} {front back : List Text} (hback : back ≠ [])
    (h : tree.sight (front ++ back) ≠ none) : tree.sight front = some .directory := by
  obtain ⟨name, rest, rfl⟩ := List.exists_cons_of_ne_nil hback
  rw [sight_eq, node?_append] at h
  rw [sight_eq]
  cases hfront : tree.node? front with
  | none => simp [hfront] at h
  | some node =>
    cases node with
    | file => simp [hfront, Node.at?] at h
    | directory => rfl

end FileTree

end ComponentMarkup
